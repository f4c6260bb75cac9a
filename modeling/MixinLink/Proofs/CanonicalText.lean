import Mathlib.Data.Prod.Lex
import MixinLink.Proofs.RoundTrip

/-!
# Mapping text has one form

What is written about a table depends on what is renamed in it, and not on the order in which entries were
added, nor on members that keep their names or fields whose type is open. For the classes stand in the strict
order of their names, the fields of a class in the strict order of name and descriptor, and its methods in
the strict order of descriptor and name; and a strict order leaves one way to list a set.

Main exports: `Table.SameRenamed`, `FieldMapping.place`, `MethodMapping.place`, `Tiny.StrictlyOrdered`,
`Tiny.write_eq_of_sameRenamed`.
-/

namespace MixinLink

/-! ## Where members stand -/

/-- The place of a field among the fields of its class: by name, then by descriptor. -/
def FieldMapping.place (field : FieldMapping) : String ×ₗ String :=
  toLex (field.signature.name.text, (field.signature.type.map FieldType.descriptor).getD "")

/-- The place of a method among the methods of its class: by descriptor, then by name. -/
def MethodMapping.place (method : MethodMapping) : String ×ₗ String :=
  toLex (method.signature.type.descriptor, method.signature.name.text)

/-- The descriptor tells the type. -/
theorem FieldType.descriptor_injective : Function.Injective FieldType.descriptor := by
  intro type other same
  have read : FieldType.parse type.descriptor = .ok other := FieldType.parse_eq_ok.2 same.symm
  rw [FieldType.parse_eq_ok.2 rfl] at read
  exact Except.ok.inj read

/-- The descriptor tells the type of a method. -/
theorem MethodType.descriptor_injective : Function.Injective MethodType.descriptor := by
  intro type other same
  have read : MethodType.parse type.descriptor = .ok other := MethodType.parse_eq_ok.2 same.symm
  rw [MethodType.parse_eq_ok.2 rfl] at read
  exact Except.ok.inj read

/-- Different fields with known types have different places. -/
theorem FieldMapping.signature_eq_of_place {field other : FieldMapping}
    (typed : field.signature.type.isSome = true) (otherTyped : other.signature.type.isSome = true)
    (same : field.place = other.place) : field.signature = other.signature := by
  obtain ⟨⟨name, type⟩, mapped⟩ := field
  obtain ⟨⟨otherName, otherType⟩, otherMapped⟩ := other
  obtain ⟨type, rfl⟩ := Option.isSome_iff_exists.1 typed
  obtain ⟨otherType, rfl⟩ := Option.isSome_iff_exists.1 otherTyped
  obtain ⟨sameText, sameDescriptor⟩ := Prod.mk.inj (toLex.injective same)
  have sameName : name = otherName := FieldName.ext_text sameText
  have sameType : type = otherType := FieldType.descriptor_injective sameDescriptor
  rw [sameName, sameType]

/-- Different methods have different places. -/
theorem MethodMapping.signature_eq_of_place {method other : MethodMapping}
    (same : method.place = other.place) :
    method.signature = other.signature := by
  obtain ⟨⟨name, type⟩, mapped⟩ := method
  obtain ⟨⟨otherName, otherType⟩, otherMapped⟩ := other
  obtain ⟨sameDescriptor, sameText⟩ := Prod.mk.inj (toLex.injective same)
  have sameName : name = otherName := MethodName.ext_text sameText
  have sameType : type = otherType := MethodType.descriptor_injective sameDescriptor
  rw [sameName, sameType]

/-- Fields are sorted by their places. -/
theorem FieldMapping.place_le {field other : FieldMapping} (typed : field.signature.type.isSome = true)
    (otherTyped : other.signature.type.isSome = true)
    (precedes : field.signature.precedes other.signature = true) : field.place ≤ other.place := by
  obtain ⟨⟨name, type⟩, mapped⟩ := field
  obtain ⟨⟨otherName, otherType⟩, otherMapped⟩ := other
  obtain ⟨type, rfl⟩ := Option.isSome_iff_exists.1 typed
  obtain ⟨otherType, rfl⟩ := Option.isSome_iff_exists.1 otherTyped
  rw [FieldSignature.precedes] at precedes
  rw [place, place, Prod.Lex.toLex_le_toLex]
  split at precedes
  · rename_i sameName
    exact .inr ⟨sameName, of_decide_eq_true precedes⟩
  · rename_i otherName
    exact .inl (lt_of_le_of_ne (of_decide_eq_true precedes) otherName)

/-- Methods are sorted by their places. -/
theorem MethodMapping.place_le {method other : MethodMapping}
    (precedes : method.signature.precedesByType other.signature = true) : method.place ≤ other.place := by
  rw [MethodSignature.precedesByType] at precedes
  rw [place, place, Prod.Lex.toLex_le_toLex]
  split at precedes
  · rename_i sameType
    exact .inr ⟨sameType, of_decide_eq_true precedes⟩
  · rename_i otherType
    exact .inl (lt_of_le_of_ne (of_decide_eq_true precedes) otherType)

namespace Tiny

variable {entry other : ClassEntry}

/-- Only fields with known types are written. -/
theorem typed_of_mem_writtenFields {field : FieldMapping} (member : field ∈ writtenFields entry) :
    field.signature.type.isSome = true := by
  have kept := (List.mem_filter.1 (List.mem_mergeSort.1 member)).2
  exact (Bool.and_eq_true_iff.1 kept).2

/-- Sorting leaves no two fields in one place. -/
theorem strict_writtenFields (keyed : entry.MembersKeyed) :
    (writtenFields entry).Pairwise fun a b => a.place < b.place := by
  have different := List.pairwise_map.1 (nodup_writtenFields keyed)
  refine ((sorted_writtenFields entry).and different).imp_of_mem fun {a b} isFirst isSecond related => ?_
  have typed := typed_of_mem_writtenFields isFirst
  have otherTyped := typed_of_mem_writtenFields isSecond
  refine lt_of_le_of_ne (FieldMapping.place_le typed otherTyped related.1) fun same => ?_
  exact related.2 (FieldMapping.signature_eq_of_place typed otherTyped same)

/-- Sorting leaves no two methods in one place. -/
theorem strict_writtenMethods (keyed : entry.MembersKeyed) :
    (writtenMethods entry).Pairwise fun a b => a.place < b.place := by
  have different := List.pairwise_map.1 (nodup_writtenMethods keyed)
  refine ((sorted_writtenMethods entry).and different).imp fun {a b} related => ?_
  refine lt_of_le_of_ne (MethodMapping.place_le related.1) fun same => ?_
  exact related.2 (MethodMapping.signature_eq_of_place same)

end Tiny

/-! ## Tables in which the same is renamed -/

/-- The same classes have entries, with the same mapped names, and in each of them the same fields
with a known type and the same methods are renamed, to the same names. -/
structure Table.SameRenamed (first second : Table) : Prop where
  namespaces : first.namespaces = second.namespaces
  classes : ∀ name, (first.find? name).map ClassEntry.mapped = (second.find? name).map ClassEntry.mapped
  fields : ∀ name entry twin, first.find? name = some entry → second.find? name = some twin →
    ∀ field : FieldMapping, field.isRenamed = true → field.signature.type.isSome = true →
      (field ∈ entry.fieldMappings ↔ field ∈ twin.fieldMappings)
  methods : ∀ name entry twin, first.find? name = some entry → second.find? name = some twin →
    ∀ method : MethodMapping, method.isRenamed = true →
      (method ∈ entry.methodMappings ↔ method ∈ twin.methodMappings)

/-- Two changes of one entry after which the same is renamed make tables in which the same is renamed. -/
theorem Table.sameRenamed_update {table : Table} {name : ClassName} {change other : ClassEntry → ClassEntry}
    {entry twin : ClassEntry} (isEntry : change (table.entryOf name) = entry)
    (isTwin : other (table.entryOf name) = twin) (mapped : entry.mapped = twin.mapped)
    (fields : (entry.fieldMappings.filter fun field => field.isRenamed && field.signature.type.isSome).Perm
      (twin.fieldMappings.filter fun field => field.isRenamed && field.signature.type.isSome))
    (methods : (entry.methodMappings.filter MethodMapping.isRenamed).Perm
      (twin.methodMappings.filter MethodMapping.isRenamed)) :
    (table.update name change).SameRenamed (table.update name other) := by
  have found : (table.update name change).find? name = some entry := by
    rw [find?_update_self, isEntry]
  have twinFound : (table.update name other).find? name = some twin := by
    rw [find?_update_self, isTwin]
  have elsewhere : ∀ place, place ≠ name →
      (table.update name change).find? place = (table.update name other).find? place := by
    intro place apart
    rw [find?_update, find?_update, if_neg apart, if_neg apart]
  refine ⟨rfl, fun place => ?_, fun place here there isHere isThere field renamed typed => ?_,
    fun place here there isHere isThere method renamed => ?_⟩
  · by_cases same : place = name
    · rw [same, found, twinFound, Option.map_some, Option.map_some, mapped]
    · rw [elsewhere place same]
  · by_cases same : place = name
    · rw [same, found, Option.some.injEq] at isHere
      rw [same, twinFound, Option.some.injEq] at isThere
      rw [← isHere, ← isThere]
      simpa [renamed, typed] using fields.mem_iff (a := field)
    · rw [elsewhere place same, isThere, Option.some.injEq] at isHere
      rw [isHere]
  · by_cases same : place = name
    · rw [same, found, Option.some.injEq] at isHere
      rw [same, twinFound, Option.some.injEq] at isThere
      rw [← isHere, ← isThere]
      simpa [renamed] using methods.mem_iff (a := method)
    · rw [elsewhere place same, isThere, Option.some.injEq] at isHere
      rw [isHere]

namespace Tiny

variable {first second : Table} (sound : first.Sound) (secondSound : second.Sound)
  (same : first.SameRenamed second)

include sound secondSound same

/-- If the same is renamed, the same is written of every entry. -/
theorem writtenAlike_of_sameRenamed (name : ClassName) :
    WrittenAlike (first.entryOf name) (second.entryOf name) := by
  have sameClass := same.classes name
  cases found : first.find? name with
  | none =>
      rw [found, Option.map_none, eq_comm, Option.map_eq_none_iff] at sameClass
      rw [Table.entryOf, Table.entryOf, found, sameClass]
      exact ⟨rfl, rfl, rfl⟩
  | some entry =>
      rw [found, Option.map_some, eq_comm, Option.map_eq_some_iff] at sameClass
      obtain ⟨twin, twinFound, sameMapped⟩ := sameClass
      have keyed := (sound.soundAt found).members
      have twinKeyed := (secondSound.soundAt twinFound).members
      rw [Table.entryOf_of_find? found, Table.entryOf_of_find? twinFound]
      refine ⟨sameMapped.symm, ?_, ?_⟩
      · refine eq_of_mem_iff_of_strict (strict_writtenFields keyed)
          (strict_writtenFields twinKeyed) fun field => ?_
        simp only [writtenFields, List.mem_mergeSort, List.mem_filter, Bool.and_eq_true]
        refine and_congr_left fun kept => ?_
        exact same.fields name entry twin found twinFound field kept.1 kept.2
      · refine eq_of_mem_iff_of_strict (strict_writtenMethods keyed)
          (strict_writtenMethods twinKeyed) fun method => ?_
        simp only [writtenMethods, List.mem_mergeSort, List.mem_filter]
        exact and_congr_left fun kept => same.methods name entry twin found twinFound method kept

/-- If the same is renamed, there is the same to tell. -/
theorem tells_iff_of_sameRenamed (block : Block) : Tells first block ↔ Tells second block := by
  have alike := writtenAlike_of_sameRenamed sound secondSound same
  have present : (first.find? block.name).isSome = (second.find? block.name).isSome := by
    rw [← Option.isSome_map, same.classes, Option.isSome_map]
  constructor
  · intro tells
    obtain ⟨entry, found, _⟩ := tells.members
    exact Tells.of_alike alike tells (by rw [← present, found, Option.isSome_some])
  · intro tells
    obtain ⟨entry, found, _⟩ := tells.members
    exact Tells.of_alike (fun name => (alike name).symm) tells (by rw [present, found, Option.isSome_some])

end Tiny

/-! ## The text -/

namespace Tiny

/-- The classes of the blocks stand in the strict order of their names, and the members of each block in the
strict order of their places. -/
structure StrictlyOrdered (blocks : List Block) : Prop where
  classes : blocks.Pairwise fun a b => a.name.text < b.name.text
  fields : ∀ block ∈ blocks, block.fields.Pairwise fun a b => a.place < b.place
  methods : ∀ block ∈ blocks, block.methods.Pairwise fun a b => a.place < b.place

/-- The blocks of a sound table are strictly ordered. -/
theorem Listing.strictlyOrdered {table : Table} (sound : table.Sound) {blocks : List Block}
    (listing : Listing table blocks) : StrictlyOrdered blocks where
  classes := (List.pairwise_map (f := Block.name)).1 listing.sorted
  fields block member := by
    obtain ⟨entry, found, fields, _⟩ := ((listing.mem block).1 member).members
    rw [fields]
    exact strict_writtenFields (sound.soundAt found).members
  methods block member := by
    obtain ⟨entry, found, _, methods⟩ := ((listing.mem block).1 member).members
    rw [methods]
    exact strict_writtenMethods (sound.soundAt found).members

/-- Tables in which the same is renamed are written as the same text. It is made of the blocks that there
are to tell about the first table, and these are strictly ordered. -/
theorem write_eq_of_sameRenamed {first second : Table} (reachable : first.Reachable)
    (secondReachable : second.Reachable) (same : first.SameRenamed second) :
    ∃ blocks, Listing first blocks ∧ StrictlyOrdered blocks
      ∧ write first = .ok (String.join (headerLine first.namespaces :: blocks.flatMap Block.lines))
      ∧ write second = write first := by
  have sound := reachable.sound
  have secondSound := secondReachable.sound
  obtain ⟨blocks, listing, writes⟩ := exists_listing sound
  obtain ⟨others, otherListing, secondWrites⟩ := exists_listing secondSound
  have sameBlocks : blocks = others :=
    listing.eq_of_tells otherListing (tells_iff_of_sameRenamed sound secondSound same)
  refine ⟨blocks, listing, listing.strictlyOrdered sound, writes, ?_⟩
  rw [secondWrites, writes, sameBlocks, same.namespaces]

/-- The second table has the fields in the other order, a method that keeps its name and a renamed
field whose type is open. -/
theorem write_eq_of_sameRenamed_reordered :
    ∃ first second : Table, first ≠ second ∧ first.Reachable ∧ second.Reachable ∧ first.SameRenamed second
      ∧ ∃ blocks, Listing first blocks ∧ StrictlyOrdered blocks
        ∧ write first = .ok (String.join (headerLine first.namespaces :: blocks.flatMap Block.lines))
        ∧ write second = write first := by
  let name : ClassName := ⟨"w/k", by decide +kernel⟩
  let tide : FieldSignature := ⟨⟨"t", by decide +kernel⟩, some (.ofClass name)⟩
  let ebb : FieldSignature := ⟨⟨"e", by decide +kernel⟩, some (.ofClass name)⟩
  let start : Table := .empty .standard
  let operations : List Operation :=
    [.mapField name tide ⟨"tide", by decide +kernel⟩, .mapField name ebb ⟨"ebb", by decide +kernel⟩]
  let others : List Operation :=
    [.mapField name ebb ⟨"ebb", by decide +kernel⟩, .mapField name tide ⟨"tide", by decide +kernel⟩,
      .touchMethod name ⟨⟨"go", by decide +kernel⟩, ⟨[], none⟩⟩,
      .mapField name tide.withoutType ⟨"time", by decide +kernel⟩]
  have reachable : (operations.foldl Operation.apply start).Reachable :=
    (Table.Reachable.empty .standard).run _
  have otherReachable : (others.foldl Operation.apply start).Reachable :=
    (Table.Reachable.empty .standard).run _
  have same : (operations.foldl Operation.apply start).SameRenamed (others.foldl Operation.apply start) := by
    simp only [operations, others, List.foldl_cons, List.foldl_nil, Operation.apply, Table.update_update]
    exact Table.sameRenamed_update rfl rfl (by decide +kernel) (by decide +kernel) (by decide +kernel)
  exact ⟨_, _, by decide +kernel, reachable, otherReachable, same,
    write_eq_of_sameRenamed reachable otherReachable same⟩

end Tiny

end MixinLink
