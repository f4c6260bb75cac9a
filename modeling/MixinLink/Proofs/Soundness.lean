import MixinLink.Proofs.Completion
import MixinLink.Proofs.FieldLookup
import MixinLink.Proofs.OnePass

/-!
# Sound tables

A table is sound if every entry is stored under the path of its own class name and every member under its
own signature, no key and no signature stands twice, and every mapped name is of the form that its place in
the forest asks for. All operations on tables, and reading mapping text, keep tables sound.

Main exports: `ClassEntry.SoundAt`, `Table.Sound`, `Table.Sound.update`, `Table.Sound.resolveField`,
`Table.Sound.complete`, `Tiny.property_of_read`, `Tiny.sound_of_read`.
-/

namespace MixinLink

namespace ClassEntry

/-- The mapped name is a class name on the top level, and a simple name inside of a class. -/
def MappedValid (entry : ClassEntry) : Prop :=
  if entry.name.isInner then isSimpleText entry.mapped.toList = true
  else isClassText entry.mapped.toList = true

/-- Every method is stored under its own signature. -/
def MethodsKeyed (entry : ClassEntry) : Prop :=
  Assoc.All (fun signature mapping => mapping.signature = signature) entry.methods

/-- The members of an entry are stored under their own signatures, each of them once. -/
structure MembersKeyed (entry : ClassEntry) : Prop where
  uniqueFields : Assoc.Unique entry.fields
  uniqueMethods : Assoc.Unique entry.methods
  fields : entry.FieldsKeyed
  methods : entry.MethodsKeyed

/-- An entry that may be stored under some keys. -/
structure SoundAt (keys : List String) (entry : ClassEntry) : Prop where
  path : entry.name.path = keys
  mapped : entry.MappedValid
  members : entry.MembersKeyed

end ClassEntry

/-- Every entry of the table is in its place. -/
structure Table.Sound (table : Table) : Prop where
  keys : table.classes.UniqueKeys
  entries : table.classes.All ClassEntry.SoundAt []

/-! ## Changes of single entries -/

namespace ClassEntry.MembersKeyed

variable {entry : ClassEntry}

/-- A new entry has no members. -/
theorem fresh (name : ClassName) (key : String) : MembersKeyed (.fresh name key) :=
  ⟨Assoc.unique_nil, Assoc.unique_nil, Assoc.all_nil, Assoc.all_nil⟩

/-- A field without a mapped name is stored under its signature. -/
theorem touchField (keyed : entry.MembersKeyed) (signature : FieldSignature) :
    (entry.touchField signature).MembersKeyed where
  uniqueFields := keyed.uniqueFields.upsert _ _ _
  uniqueMethods := keyed.uniqueMethods
  fields := keyed.fields.upsert rfl fun _ isKey => isKey
  methods := keyed.methods

/-- A method without a mapped name is stored under its signature. -/
theorem touchMethod (keyed : entry.MembersKeyed) (signature : MethodSignature) :
    (entry.touchMethod signature).MembersKeyed where
  uniqueFields := keyed.uniqueFields
  uniqueMethods := keyed.uniqueMethods.upsert _ _ _
  fields := keyed.fields
  methods := keyed.methods.upsert rfl fun _ isKey => isKey

/-- A field that is mapped is stored under its signature. -/
theorem mapField (keyed : entry.MembersKeyed) (signature : FieldSignature) (mapped : FieldName) :
    (entry.mapField signature mapped).MembersKeyed where
  uniqueFields := keyed.uniqueFields.upsert _ _ _
  uniqueMethods := keyed.uniqueMethods
  fields := keyed.fields.upsert rfl fun _ isKey => isKey
  methods := keyed.methods

/-- A method that is mapped is stored under its signature. -/
theorem mapMethod (keyed : entry.MembersKeyed) (signature : MethodSignature) (mapped : MethodName) :
    (entry.mapMethod signature mapped).MembersKeyed where
  uniqueFields := keyed.uniqueFields
  uniqueMethods := keyed.uniqueMethods.upsert _ _ _
  fields := keyed.fields
  methods := keyed.methods.upsert rfl fun _ isKey => isKey

/-- A look-up stores a field under its signature. -/
theorem resolveField (keyed : entry.MembersKeyed) (signature : FieldSignature) :
    (entry.resolveField signature).2.MembersKeyed := by
  refine ⟨?_, ?_, keyed.fields.resolveField signature, ?_⟩
  · rcases resolveField_adds entry signature with same | ⟨mapped, ⟨_, absent, _⟩, added⟩
    · rw [same]
      exact keyed.uniqueFields
    · rw [added]
      refine keyed.uniqueFields.append (by simp [Assoc.Unique]) fun field member => ?_
      rw [List.mem_singleton.1 member, Assoc.contains]
      exact congrArg Option.isSome absent
  · rw [methods_resolveField]
    exact keyed.uniqueMethods
  · rw [MethodsKeyed, methods_resolveField]
    exact keyed.methods

/-- Inherited members are stored under their signatures. -/
theorem completeWith (keyed : entry.MembersKeyed) {fields : List (FieldSignature × FieldName)}
    {methods : List (MethodSignature × MethodName)} (fieldsUnique : Assoc.Unique fields)
    (methodsUnique : Assoc.Unique methods) : (entry.completeWith fields methods).MembersKeyed where
  uniqueFields := Table.unique_append_missing keyed.uniqueFields fieldsUnique
  uniqueMethods := Table.unique_append_missing keyed.uniqueMethods methodsUnique
  fields := Table.all_append_missing keyed.fields fun _ _ => rfl
  methods := Table.all_append_missing keyed.methods fun _ _ => rfl

end ClassEntry.MembersKeyed

namespace ClassEntry.SoundAt

/-- A new entry is sound at the path of its class. -/
theorem fresh {name : ClassName} : SoundAt name.path (.fresh name name.key) := by
  refine ⟨rfl, ?_, .fresh name name.key⟩
  unfold MappedValid ClassName.isInner ClassEntry.fresh ClassName.key
  cases last : name.nesting.inner.getLast? with
  | none =>
      have isTop := List.getLast?_eq_none_iff.1 last
      simpa [isTop] using name.valid
  | some simple =>
      have isNested : name.nesting.inner ≠ [] := by
        intro isTop
        simp [isTop] at last
      simpa [isNested] using simple.valid

variable {keys : List String} {entry : ClassEntry}

/-- Renaming checks what has to hold of the mapped name. -/
theorem rename {mapped : String} {renamed : ClassEntry} (sound : SoundAt keys entry)
    (checked : entry.rename mapped = .ok renamed) : SoundAt keys renamed := by
  unfold ClassEntry.rename ClassEntry.checkMapped at checked
  by_cases isNested : entry.name.isInner = true
  · rw [if_pos isNested] at checked
    by_cases refused : (mapped.toList.isEmpty || mapped.toList.any isReserved) = true
    · simp [refused, Checked.refuse, bind, Except.bind] at checked
    · simp only [refused, bind, Except.bind, pure, Except.pure] at checked
      cases checked
      refine ⟨sound.path, ?_, ⟨sound.members.1, sound.members.2, sound.members.3, sound.members.4⟩⟩
      simp only [Bool.or_eq_true, not_or, Bool.not_eq_true, List.any_eq_false] at refused
      simp only [MappedValid, isNested, if_true, isSimpleText, refused.1, Bool.not_false,
        Bool.true_and, List.all_eq_true]
      intro c member
      have plain := refused.2 c member
      simp only [isReserved, Bool.or_eq_false_iff, decide_eq_false_iff_not] at plain
      simp [isNameChar, plain]
  · rw [if_neg isNested] at checked
    by_cases valid : isClassText mapped.toList = true
    · simp only [ClassName.check, valid, if_true, bind, Except.bind, pure, Except.pure] at checked
      cases checked
      refine ⟨sound.path, ?_, ⟨sound.members.1, sound.members.2, sound.members.3, sound.members.4⟩⟩
      simp [MappedValid, isNested, valid]
    · simp [ClassName.check, valid, Checked.refuse, bind, Except.bind] at checked

/-- A field without a mapped name keeps the entry sound. -/
theorem touchField (sound : SoundAt keys entry) (signature : FieldSignature) :
    SoundAt keys (entry.touchField signature) :=
  ⟨sound.path, sound.mapped, sound.members.touchField signature⟩

/-- A method without a mapped name keeps the entry sound. -/
theorem touchMethod (sound : SoundAt keys entry) (signature : MethodSignature) :
    SoundAt keys (entry.touchMethod signature) :=
  ⟨sound.path, sound.mapped, sound.members.touchMethod signature⟩

/-- Mapping a field keeps the entry sound. -/
theorem mapField (sound : SoundAt keys entry) (signature : FieldSignature) (mapped : FieldName) :
    SoundAt keys (entry.mapField signature mapped) :=
  ⟨sound.path, sound.mapped, sound.members.mapField signature mapped⟩

/-- Mapping a method keeps the entry sound. -/
theorem mapMethod (sound : SoundAt keys entry) (signature : MethodSignature) (mapped : MethodName) :
    SoundAt keys (entry.mapMethod signature mapped) :=
  ⟨sound.path, sound.mapped, sound.members.mapMethod signature mapped⟩

/-- Looking up a field keeps the entry sound. -/
theorem resolveField (sound : SoundAt keys entry) (signature : FieldSignature) :
    SoundAt keys (entry.resolveField signature).2 := by
  have members := sound.members.resolveField signature
  rcases resolveField_adds entry signature with same | ⟨mapped, _, added⟩
  · rw [same]
    exact sound
  · rw [added] at members ⊢
    exact ⟨sound.path, sound.mapped, members⟩

/-- Completing the entry keeps it sound. -/
theorem completeWith (sound : SoundAt keys entry) {fields : List (FieldSignature × FieldName)}
    {methods : List (MethodSignature × MethodName)} (fieldsUnique : Assoc.Unique fields)
    (methodsUnique : Assoc.Unique methods) : SoundAt keys (entry.completeWith fields methods) :=
  ⟨sound.path, sound.mapped, sound.members.completeWith fieldsUnique methodsUnique⟩

end ClassEntry.SoundAt

/-! ## Operations on tables -/

namespace Table.Sound

/-- An empty table is sound. -/
theorem empty (namespaces : Namespaces) : Sound (.empty namespaces) :=
  ⟨trivial, trivial⟩

variable {table : Table}

/-- Changing one entry in such a way keeps the table sound. -/
theorem update (sound : table.Sound) {name : ClassName} {change : ClassEntry → ClassEntry}
    (kept : ∀ entry, ClassEntry.SoundAt name.path entry → ClassEntry.SoundAt name.path (change entry)) :
    (table.update name change).Sound := by
  refine ⟨sound.keys.update, sound.entries.update ?_ ?_⟩
  · intro before key other after split
    have path := ClassName.path_of_trail split
    rw [List.nil_append, ← path, ClassName.key_of_trail split]
    exact .fresh
  · rw [List.nil_append, ClassName.keys_trail]
    exact kept

/-- The entry of a class is found under the class. -/
theorem soundAt (sound : table.Sound) {name : ClassName} {entry : ClassEntry}
    (found : table.find? name = some entry) : ClassEntry.SoundAt name.path entry :=
  sound.entries.entryAt? found

/-- The entry of a class, new or not, is sound. -/
theorem soundAt_entryOf (sound : table.Sound) (name : ClassName) :
    ClassEntry.SoundAt name.path (table.entryOf name) := by
  rw [entryOf]
  cases found : table.find? name with
  | none => exact .fresh
  | some entry => exact sound.soundAt found

/-- A method is found under its own signature. -/
theorem signature_of_method? (sound : table.Sound) {owner : ClassName} {signature : MethodSignature}
    {mapping : MethodMapping} (found : table.method? owner signature = some mapping) :
    mapping.signature = signature := by
  obtain ⟨entry, present, stored⟩ := Option.bind_eq_some_iff.1 found
  exact Assoc.All.of_find? (sound.soundAt present).members.methods stored

/-- An entry is found under its own name. -/
theorem name_of_find? (sound : table.Sound) {name : ClassName} {entry : ClassEntry}
    (found : table.find? name = some entry) : entry.name = name :=
  ClassName.path_injective (sound.soundAt found).path

/-- The entry of a class, new or not, has its name. -/
theorem name_entryOf (sound : table.Sound) (name : ClassName) : (table.entryOf name).name = name :=
  ClassName.path_injective (sound.soundAt_entryOf name).path

/-- Creating a class keeps the table sound. -/
theorem createClass (sound : table.Sound) (name : ClassName) : (table.update name id).Sound :=
  sound.update fun _ entrySound => entrySound

/-- Looking up a field keeps the table sound. -/
theorem resolveField (sound : table.Sound) (owner : ClassName) (signature : FieldSignature) :
    (table.resolveField owner signature).2.Sound := by
  unfold Table.resolveField
  split
  · exact sound
  · exact sound.update fun _ entrySound => entrySound.resolveField signature

/-- Completing a class keeps the table sound. -/
theorem complete (sound : table.Sound) (hierarchy : Hierarchy) (name : ClassName) :
    (table.complete hierarchy name).value.Sound := by
  rw [complete_value]
  split
  · exact sound
  · refine sound.update fun _ entrySound => ?_
    exact entrySound.completeWith (unique_inheritedFields _ _ _) (unique_inheritedMethods _ _ _)

end Table.Sound

/-! ## Reading mapping text -/

namespace Tiny

open Table (Sound)

namespace Progress

/-- A line is read if it is not indented too far, and its content is. -/
theorem step_eq_ok {progress next : Progress} {line : Line} :
    progress.step line = .ok next
      ↔ line.indent ≤ progress.opened.length
        ∧ ∃ table owner,
          readContent progress.table (progress.opened.take line.indent) line = .ok (table, owner)
          ∧ next = ⟨table, progress.opened.take line.indent ++ [⟨line.number, owner⟩]⟩ := by
  by_cases fits : line.indent ≤ progress.opened.length
  · rw [step, if_neg (Nat.not_lt.2 fits)]
    cases read : readContent progress.table (progress.opened.take line.indent) line with
    | error failure => simp [refuse, read]
    | ok result =>
        obtain ⟨table, owner⟩ := result
        simp [read, fits, eq_comm]
  · rw [step, if_pos (Nat.lt_of_not_le fits)]
    simp [refuse, fits]

/-- Lines are read if the first one is, and then the others. -/
theorem run_cons_eq_ok {progress after : Progress} {line : Option Line} {lines : List (Option Line)} :
    progress.run (line :: lines) = .ok after
      ↔ ∃ content next, line = some content ∧ progress.step content = .ok next
        ∧ next.run lines = .ok after := by
  cases line with
  | none => simp [run, refuse]
  | some content =>
      rw [run]
      cases stepped : progress.step content with
      | error failure => simp [stepped]
      | ok next => simp [stepped]

end Progress

/-- Reading succeeds if there is a header, and the pass over the other lines succeeds. -/
theorem read_eq_ok {lines : List (Option Line)} {table : Table} :
    read lines = .ok table
      ↔ ∃ header body namespaces opened, lines = some header :: body ∧ readHeader header = .ok namespaces
        ∧ Progress.run ⟨.empty namespaces, []⟩ body = .ok ⟨table, opened⟩ := by
  rw [read_eq_onePass]
  rcases lines with _ | ⟨_ | header, body⟩
  · simp [onePass]
  · simp [onePass]
  · simp only [onePass, Progress.outcome, Checked.bind_eq_ok, Checked.pure_eq_ok, List.cons.injEq,
      Option.some.injEq]
    constructor
    · rintro ⟨namespaces, isHeader, progress, success, rfl⟩
      exact ⟨header, body, namespaces, progress.opened, ⟨rfl, rfl⟩, isHeader, success⟩
    · rintro ⟨_, _, namespaces, opened, ⟨rfl, rfl⟩, isHeader, success⟩
      exact ⟨namespaces, isHeader, _, success, rfl⟩

/-- Reading the line, wherever it stands, keeps a property of tables. Members are only read below class
lines, whose classes have a property of their own. -/
structure KeptBy (property : Table → Prop) (owners : ClassName → Prop) (line : Line) : Prop where
  readClass : ∀ before name after, property before → readClass before line = .ok (name, after) →
    property after ∧ owners name
  readMember : ∀ before owner after, property before → owners owner →
    readMember before owner line = .ok after → property after

/-- The table has the property, and so have the classes of the open lines. -/
structure Progress.Has (property : Table → Prop) (owners : ClassName → Prop) (progress : Progress) :
    Prop where
  table : property progress.table
  opened : ∀ line ∈ progress.opened, ∀ owner, line.owner = some owner → owners owner

section Property

variable {property : Table → Prop} {owners : ClassName → Prop}

private theorem has_of_readContent {line : Line} (kept : KeptBy property owners line) {table after : Table}
    {around : List OpenLine} {owner : Option ClassName} (holds : property table)
    (opened : ∀ line ∈ around, ∀ owner, line.owner = some owner → owners owner)
    (success : Progress.readContent table around line = .ok (after, owner)) :
    property after ∧ ∀ name, owner = some name → owners name := by
  unfold Progress.readContent at success
  split at success
  · split at success
    · obtain ⟨⟨name, read⟩, readOk, success⟩ := Checked.bind_eq_ok.1 success
      cases Checked.pure_eq_ok.1 success
      obtain ⟨afterHolds, named⟩ := kept.readClass _ _ _ holds readOk
      refine ⟨afterHolds, ?_⟩
      rintro _ ⟨⟩
      exact named
    · cases Checked.pure_eq_ok.1 success
      exact ⟨holds, by simp⟩
  · rename_i above
    obtain ⟨read, readOk, success⟩ := Checked.bind_eq_ok.1 success
    cases Checked.pure_eq_ok.1 success
    have named := opened _ List.mem_cons_self above rfl
    exact ⟨kept.readMember _ _ _ holds named readOk, by simp⟩
  · cases Checked.pure_eq_ok.1 success
    exact ⟨holds, by simp⟩

private theorem has_of_step {line : Line} (kept : KeptBy property owners line) {progress after : Progress}
    (holds : progress.Has property owners) (success : progress.step line = .ok after) :
    after.Has property owners := by
  obtain ⟨_, table, owner, read, rfl⟩ := Progress.step_eq_ok.1 success
  have around : ∀ other ∈ progress.opened.take line.indent,
      ∀ owner, other.owner = some owner → owners owner :=
    fun other member => holds.opened other (List.mem_of_mem_take member)
  obtain ⟨tableHolds, named⟩ := has_of_readContent kept holds.table around read
  refine ⟨tableHolds, fun other member => ?_⟩
  rcases List.mem_append.1 member with earlier | last
  · exact around other earlier
  · rw [List.mem_singleton.1 last]
    exact named

private theorem has_of_run {lines : List (Option Line)}
    (kept : ∀ line, some line ∈ lines → KeptBy property owners line) {progress after : Progress}
    (holds : progress.Has property owners) (success : progress.run lines = .ok after) :
    after.Has property owners := by
  induction lines generalizing progress with
  | nil =>
      cases success
      exact holds
  | cons line lines ih =>
      obtain ⟨content, next, rfl, stepOk, rest⟩ := Progress.run_cons_eq_ok.1 success
      exact ih (fun other member => kept other (List.mem_cons_of_mem _ member))
        (has_of_step (kept content List.mem_cons_self) holds stepOk) rest

/-- A property that holds after the header and is kept by every line holds of the table that is read. -/
theorem property_of_read {lines : List (Option Line)}
    (start : ∀ header namespaces, some header ∈ lines → readHeader header = .ok namespaces →
      property (.empty namespaces))
    (kept : ∀ line, some line ∈ lines → KeptBy property owners line) {table : Table}
    (success : read lines = .ok table) : property table := by
  obtain ⟨header, body, namespaces, opened, rfl, headerOk, runOk⟩ := read_eq_ok.1 success
  have first : property (.empty namespaces) := start header namespaces List.mem_cons_self headerOk
  exact (has_of_run (fun line member => kept line (List.mem_cons_of_mem _ member))
    ⟨first, by simp⟩ runOk).table

end Property

/-! ## Reading keeps tables sound -/

private theorem sound_of_readClass {table after : Table} {line : Line} {name : ClassName}
    (sound : table.Sound) (success : readClass table line = .ok (name, after)) : after.Sound := by
  unfold readClass at success
  obtain ⟨⟨read, deobfuscated⟩, _, success⟩ := Checked.bind_eq_ok.1 success
  cases deobfuscated with
  | none =>
      simp only [Checked.pure_eq_ok, Prod.mk.injEq] at success
      rw [← success.2]
      exact sound.createClass read
  | some deobfuscated =>
      obtain ⟨renamed, checked, success⟩ := Checked.bind_eq_ok.1 success
      simp only [Checked.pure_eq_ok, Prod.mk.injEq] at success
      rw [← success.2]
      -- What was checked is the entry as it is stored, or a fresh one of the same class.
      have renamedSound : ClassEntry.SoundAt read.path renamed :=
        (sound.soundAt_entryOf read).rename checked
      refine sound.update fun entry entrySound => ?_
      have sameName : entry.name = renamed.name :=
        ClassName.path_injective (entrySound.path.trans renamedSound.path.symm)
      obtain ⟨uniqueFields, uniqueMethods, fields, methods⟩ := entrySound.members
      refine ⟨entrySound.path, ?_, ⟨uniqueFields, uniqueMethods, fields, methods⟩⟩
      have valid := renamedSound.mapped
      unfold ClassEntry.MappedValid at valid ⊢
      rw [sameName]
      exact valid

private theorem sound_of_readMember {table after : Table} {owner : ClassName} {line : Line}
    (sound : table.Sound) (success : readMember table owner line = .ok after) : after.Sound := by
  unfold readMember at success
  split at success
  · obtain ⟨⟨descriptor, line⟩, _, success⟩ := Checked.bind_eq_ok.1 success
    obtain ⟨type, _, success⟩ := Checked.bind_eq_ok.1 success
    obtain ⟨⟨name, deobfuscated⟩, _, success⟩ := Checked.bind_eq_ok.1 success
    cases deobfuscated with
    | none =>
        rw [← Checked.pure_eq_ok.1 success]
        exact sound.update fun _ entrySound => entrySound.touchField _
    | some mapped =>
        rw [← Checked.pure_eq_ok.1 success]
        exact sound.update fun _ entrySound => entrySound.mapField _ _
  · split at success
    · obtain ⟨⟨descriptor, line⟩, _, success⟩ := Checked.bind_eq_ok.1 success
      obtain ⟨type, _, success⟩ := Checked.bind_eq_ok.1 success
      obtain ⟨⟨name, deobfuscated⟩, _, success⟩ := Checked.bind_eq_ok.1 success
      cases deobfuscated with
      | none =>
          rw [← Checked.pure_eq_ok.1 success]
          exact sound.update fun _ entrySound => entrySound.touchMethod _
      | some mapped =>
          rw [← Checked.pure_eq_ok.1 success]
          exact sound.update fun _ entrySound => entrySound.mapMethod _ _
    · rw [← Checked.pure_eq_ok.1 success]
      exact sound

private theorem keptBy_sound (line : Line) : KeptBy Sound (fun _ => True) line where
  readClass _ _ _ sound readOk := ⟨sound_of_readClass sound readOk, trivial⟩
  readMember _ _ _ sound _ readOk := sound_of_readMember sound readOk

/-- Reading a line keeps the table sound. -/
theorem sound_of_step {progress after : Progress} {line : Line} (sound : progress.table.Sound)
    (success : progress.step line = .ok after) : after.table.Sound :=
  (has_of_step (keptBy_sound line) ⟨sound, by simp⟩ success).table

/-- What is read is sound. -/
theorem sound_of_read {lines : List (Option Line)} {table : Table} (success : read lines = .ok table) :
    table.Sound :=
  property_of_read (fun _ namespaces _ _ => .empty namespaces) (fun line _ => keptBy_sound line) success

end Tiny

end MixinLink
