import MixinLink.Proofs.Evolution

/-!
# Tables that can come up

A table comes up by starting from an empty table or from mapping text, and applying operations: creating
and renaming classes, creating and renaming members, looking up fields, completing classes and remapping
source files. An operation that is refused leaves the table as it is.

All these tables are sound, so everything in them is stored where its name says.

Main exports: `Table.Reachable`, `Table.Reachable.sound`, `Table.Faithful`,
`Table.faithful_of_reachable`.
-/

namespace MixinLink

/-- An operation on a table. -/
inductive Operation where
  | createClass (name : ClassName)
  | renameClass (name : ClassName) (mapped : String)
  | touchField (owner : ClassName) (signature : FieldSignature)
  | mapField (owner : ClassName) (signature : FieldSignature) (mapped : FieldName)
  | touchMethod (owner : ClassName) (signature : MethodSignature)
  | mapMethod (owner : ClassName) (signature : MethodSignature) (mapped : MethodName)
  | resolveField (owner : ClassName) (signature : FieldSignature)
  | complete (hierarchy : Hierarchy) (name : ClassName)
  | remap (hierarchy : Hierarchy) (unit : SourceUnit)

/-- The table after an operation. Members are created together with their class; a class that has no
entry is not renamed, nor is one renamed to a name that is refused. -/
def Operation.apply (table : Table) : Operation → Table
  | createClass name => table.update name id
  | renameClass name mapped =>
    match table.find? name with
    | none => table
    | some entry =>
      match entry.rename mapped with
      | .error _ => table
      | .ok renamed => table.update name fun _ => renamed
  | touchField owner signature => table.update owner (·.touchField signature)
  | mapField owner signature mapped => table.update owner (·.mapField signature mapped)
  | touchMethod owner signature => table.update owner (·.touchMethod signature)
  | mapMethod owner signature mapped => table.update owner (·.mapMethod signature mapped)
  | resolveField owner signature => (table.resolveField owner signature).2
  | complete hierarchy name => (table.complete hierarchy name).value
  | remap hierarchy unit => (remapUnit hierarchy table unit).value.2

/-- The tables that can come up. -/
inductive Table.Reachable : Table → Prop where
  | empty (namespaces : Namespaces) : Reachable (.empty namespaces)
  | read {lines : List (Option Tiny.Line)} {table : Table} (success : Tiny.read lines = .ok table) :
      Reachable table
  | apply {table : Table} (reachable : Reachable table) (operation : Operation) :
      Reachable (operation.apply table)

namespace Table

/-- Tables that come up stay so under any operations. -/
theorem Reachable.run {table : Table} (reachable : table.Reachable) (operations : List Operation) :
    (operations.foldl Operation.apply table).Reachable := by
  induction operations generalizing table with
  | nil => exact reachable
  | cons operation rest ih => exact ih (reachable.apply operation)

/-! ## Reachable tables are sound -/

/-- No operation makes a sound table unsound. -/
theorem Sound.apply {table : Table} (sound : table.Sound) (operation : Operation) :
    (operation.apply table).Sound := by
  cases operation with
  | createClass name => exact sound.createClass name
  | renameClass name mapped =>
      simp only [Operation.apply]
      split
      · exact sound
      · rename_i entry found
        split
        · exact sound
        · rename_i renamed checked
          exact sound.update fun _ _ => (sound.soundAt found).rename checked
  | touchField owner signature => exact sound.update fun _ entrySound => entrySound.touchField _
  | mapField owner signature mapped => exact sound.update fun _ entrySound => entrySound.mapField _ _
  | touchMethod owner signature => exact sound.update fun _ entrySound => entrySound.touchMethod _
  | mapMethod owner signature mapped =>
      exact sound.update fun _ entrySound => entrySound.mapMethod _ _
  | resolveField owner signature => exact sound.resolveField owner signature
  | complete hierarchy name => exact sound.complete hierarchy name
  | remap hierarchy unit => exact sound.evolves (evolves_remapUnit sound hierarchy unit)

/-- Every table that can come up is sound. -/
theorem Reachable.sound {table : Table} (reachable : table.Reachable) : table.Sound := by
  induction reachable with
  | empty namespaces => exact .empty namespaces
  | read success => exact Tiny.sound_of_read success
  | apply _ operation ih => exact ih.apply operation

/-! ## What soundness says -/

open ClassForest (Stored)

namespace Sound

variable {table : Table}

/-- Every entry is sound where it is stored. -/
theorem stored (sound : table.Sound) {keys : List String} {entry : ClassEntry} {below : ClassForest}
    (stored : Stored table.classes keys entry below) : ClassEntry.SoundAt keys entry := by
  simpa using ClassForest.all_iff_stored.1 sound.entries keys entry below stored

/-- A key on the top level is the name of a class that is nested in no other. -/
theorem topKey (sound : table.Sound) {key : String} (isKey : key ∈ table.classes.keys) :
    ∃ name : ClassName, name.text = key ∧ name.nesting = ⟨name, []⟩ := by
  obtain ⟨entry, below, isStored⟩ := ClassForest.exists_stored_of_mem_keys isKey
  have path := (sound.stored isStored).path
  obtain ⟨isTop, isLast⟩ := List.cons.inj path
  have noInner : entry.name.nesting.inner = [] := List.map_eq_nil_iff.1 isLast
  have top := ClassName.nesting_top_of_inner_eq_nil noInner
  refine ⟨entry.name, ?_, Nesting.ext_parts top noInner⟩
  rw [← isTop, top]

/-- What is stored on the top level under the name of a class is the entry of that class. -/
theorem node?_of_topNode? (sound : table.Sound) {name : ClassName} {node : ClassEntry × ClassForest}
    (found : table.topNode? name = some node) : table.node? name = some node := by
  have isStored := ClassForest.stored_of_find? found
  obtain ⟨top, sameText, isTop⟩ := sound.topKey isStored.head_mem_keys
  have same : top = name := ClassName.ext_text sameText
  subst same
  have path : top.path = [top.text] := by simp [ClassName.path, isTop]
  rw [node?, path]
  exact found

/-- A piece of source code means the class of that name, wherever it is stored. -/
theorem literalNode?_eq (sound : table.Sound) (literal : String) :
    table.literalNode? literal = (ClassName.parseDotted literal).toOption.bind table.node? := by
  unfold literalNode?
  cases ClassName.parseDotted literal with
  | error failure => rfl
  | ok name =>
      cases found : table.topNode? name with
      | none => simp [found, Except.toOption]
      | some node => simp [found, Except.toOption, sound.node?_of_topNode? found]

end Sound

/-- Everything in the table is stored where its name says, and every mapped name fits its place. -/
structure Faithful (table : Table) : Prop where
  /-- The keys on the top level are names of classes that are nested in no other. -/
  topKeys : ∀ key ∈ table.classes.keys,
    ∃ name : ClassName, name.text = key ∧ name.nesting = ⟨name, []⟩
  /-- The keys on the way to an entry make up the name of its class, and are what the name is divided
  into. -/
  names : ∀ top inner entry below, Stored table.classes (top :: inner) entry below →
    entry.name.text = "$".intercalate (top :: inner)
      ∧ entry.name.nesting.top.text = top ∧ entry.name.nesting.inner.map SimpleName.text = inner
  /-- Every field is stored under its own signature, and is found there. -/
  fields : ∀ keys entry below, Stored table.classes keys entry below →
    ∀ field ∈ entry.fields, field.2.signature = field.1 ∧ entry.field? field.2.signature = some field.2
  /-- Every method is stored under its own signature, and is found there. -/
  methods : ∀ keys entry below, Stored table.classes keys entry below →
    ∀ method ∈ entry.methods, method.2.signature = method.1
      ∧ entry.method? method.2.signature = some method.2
  mappedTop : ∀ top entry below, Stored table.classes [top] entry below →
    ∃ name : ClassName, name.text = entry.mapped
  mappedNested : ∀ top next inner entry below, Stored table.classes (top :: next :: inner) entry below →
    entry.mapped ≠ "" ∧ ∀ c ∈ entry.mapped.toList, c ≠ '/' ∧ c ≠ '.' ∧ c ≠ ';' ∧ c ≠ '['
  find? : ∀ name entry, table.find? name = some entry → entry.name = name
  literals : ∀ literal,
    table.literalNode? literal = (ClassName.parseDotted literal).toOption.bind table.node?

/-- The mapped name of a top level class is the name of a class. -/
theorem mapped_of_stored_top {table : Table} (sound : table.Sound) {top : String} {entry : ClassEntry}
    {below : ClassForest} (isStored : Stored table.classes [top] entry below) :
    ∃ name : ClassName, name.text = entry.mapped := by
  have soundAt := sound.stored isStored
  have valid := soundAt.mapped
  have isTop : entry.name.isInner = false := by
    rw [Bool.eq_false_iff, ne_eq, ClassName.isInner_iff_length_path, soundAt.path]
    simp
  rw [ClassEntry.MappedValid, isTop] at valid
  exact ⟨⟨entry.mapped, by simpa using valid⟩, rfl⟩

/-- The mapped name of a nested class has no character that would divide it. -/
theorem mapped_of_stored_nested {table : Table} (sound : table.Sound) {top next : String}
    {inner : List String} {entry : ClassEntry} {below : ClassForest}
    (isStored : Stored table.classes (top :: next :: inner) entry below) :
    entry.mapped ≠ "" ∧ ∀ c ∈ entry.mapped.toList, c ≠ '/' ∧ c ≠ '.' ∧ c ≠ ';' ∧ c ≠ '[' := by
  have soundAt := sound.stored isStored
  have valid := soundAt.mapped
  have isNested : entry.name.isInner = true := by
    rw [ClassName.isInner_iff_length_path, soundAt.path]
    simp
  rw [ClassEntry.MappedValid, if_pos isNested, isSimpleText_iff] at valid
  refine ⟨?_, fun c member => ?_⟩
  · rintro empty
    exact valid.1 (by simp [empty])
  · have plain := valid.2 c member
    simp only [isNameChar, Bool.and_eq_true, decide_eq_true_eq] at plain
    exact ⟨plain.2, plain.1.1.1, plain.1.1.2, plain.1.2⟩

/-- An entry whose members are keyed finds every field under its own signature. -/
private theorem field?_of_keyed {entry : ClassEntry} (keyed : entry.MembersKeyed)
    {field : FieldSignature × FieldMapping} (member : field ∈ entry.fields) :
    field.2.signature = field.1 ∧ entry.field? field.2.signature = some field.2 := by
  have isKey : field.2.signature = field.1 := keyed.fields field member
  rw [isKey]
  exact ⟨rfl, (Assoc.find?_eq_some_iff_mem keyed.uniqueFields).2 member⟩

/-- An entry whose members are keyed finds every method under its own signature. -/
private theorem method?_of_keyed {entry : ClassEntry} (keyed : entry.MembersKeyed)
    {method : MethodSignature × MethodMapping} (member : method ∈ entry.methods) :
    method.2.signature = method.1 ∧ entry.method? method.2.signature = some method.2 := by
  have isKey : method.2.signature = method.1 := keyed.methods method member
  rw [isKey]
  exact ⟨rfl, (Assoc.find?_eq_some_iff_mem keyed.uniqueMethods).2 member⟩

/-- In every table that can come up, everything is stored where its name says. -/
theorem faithful_of_reachable {table : Table} (reachable : table.Reachable) : table.Faithful where
  topKeys _ isKey := reachable.sound.topKey isKey
  names top inner entry below isStored := by
    have path := (reachable.sound.stored isStored).path
    refine ⟨?_, List.cons.inj path⟩
    rw [← path]
    exact entry.name.text_eq_intercalate_path
  fields _ _ _ isStored _ member := field?_of_keyed (reachable.sound.stored isStored).members member
  methods _ _ _ isStored _ member := method?_of_keyed (reachable.sound.stored isStored).members member
  mappedTop _ _ _ isStored := mapped_of_stored_top reachable.sound isStored
  mappedNested _ _ _ _ _ isStored := mapped_of_stored_nested reachable.sound isStored
  find? _ _ found := reachable.sound.name_of_find? found
  literals literal := reachable.sound.literalNode?_eq literal

/-- The second renaming is refused, and the mapping that leaves the type of the field open is copied for the
full signature. -/
theorem faithful_nested_renamed :
    ∃ (name : ClassName) (table : Table), name.text = "p/a$b" ∧ table.Reachable
      ∧ (table.find? name).map ClassEntry.mapped = some "Inner"
      ∧ (table.find? name).map (fun entry => entry.fields.map fun field =>
          (field.2.signature.text, field.2.mapped.text)) = some [("c", "count"), ("c:Lp/a$b;", "count")]
      ∧ table.Faithful := by
  let name : ClassName := ⟨"p/a$b", by decide +kernel⟩
  let field : FieldName := ⟨"c", by decide +kernel⟩
  let operations : List Operation :=
    [.createClass name, .renameClass name "Inner", .renameClass name "In$ner",
      .mapField name ⟨field, none⟩ ⟨"count", by decide +kernel⟩,
      .resolveField name ⟨field, some (.ofClass name)⟩]
  let table := operations.foldl Operation.apply (.empty .standard)
  have reachable : table.Reachable := (Reachable.empty .standard).run operations
  exact ⟨name, table, rfl, reachable, by decide +kernel, by decide +kernel, faithful_of_reachable reachable⟩

end Table

end MixinLink
