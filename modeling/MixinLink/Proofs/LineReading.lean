import MixinLink.Proofs.Descriptors
import MixinLink.Proofs.Soundness

/-!
# What a line of mapping text says

The reader takes the fields of a line one by one. Taken together, the fields of a header are fixed
but for the namespaces; those of class lines and member lines end with one or two names, and the
second one may be empty. Whether a class line is accepted does not depend on what the table has
about its class.

Main exports: `ClassName.lastPart`, `Tiny.NameFields`, `Tiny.Line.IsHeader`,
`Tiny.readHeader_eq_ok`, `Tiny.Line.TellsClass`, `Tiny.readClass_eq_ok`, `Tiny.MemberRow`,
`Tiny.Line.TellsMember`, `Tiny.readMember_eq_ok`.
-/

namespace MixinLink

/-- The part of a class name after the last `$` that separates classes, or else after the package. -/
def ClassName.lastPart (name : ClassName) : String :=
  match name.nesting.inner.getLast? with
  | some simple => simple.text
  | none => name.unpackaged

private theorem ClassName.isSimpleText_lastPart (name : ClassName) :
    isSimpleText name.lastPart.toList = true := by
  unfold lastPart
  split
  · rename_i simple _
    exact simple.valid
  · rw [unpackaged, String.toList_ofList]
    exact isSimpleText_last name.valid

/-- A class name is not empty. -/
theorem ClassName.text_ne_empty (name : ClassName) : name.text ≠ "" := by
  intro empty
  have valid := name.valid
  rw [empty] at valid
  exact absurd valid (by decide)

/-- A field name is not empty. -/
theorem FieldName.text_ne_empty (name : FieldName) : name.text ≠ "" := by
  intro empty
  have valid := name.valid
  rw [empty] at valid
  exact absurd valid (by decide)

/-- A method name is not empty. -/
theorem MethodName.text_ne_empty (name : MethodName) : name.text ≠ "" := by
  intro empty
  have valid := name.valid
  rw [empty] at valid
  exact absurd valid (by decide)

namespace Tiny

/-! ## Names at the end of a line -/

/-- The fields are a name, and perhaps a second one or an empty text in its place. -/
inductive NameFields {α : Type} (text : α → String) : List String → α → Option α → Prop where
  | single (name : α) : NameFields text [text name] name none
  | empty (name : α) : NameFields text [text name, ""] name none
  | named (name mapped : α) : NameFields text [text name, text mapped] name (some mapped)

/-- Two fields are a name and a mapped name, which may be empty. -/
theorem nameFields_pair {α : Type} {text : α → String} (injective : ∀ {a b}, text a = text b → a = b)
    {first name : α} {second : String} {mapped : Option α} :
    NameFields text [text first, second] name mapped
      ↔ name = first
        ∧ (second = "" ∧ mapped = none ∨ ∃ other, second = text other ∧ mapped = some other) := by
  constructor
  · intro written
    generalize isPair : [text first, second] = fields at written
    cases written with
    | single => exact absurd (congrArg List.length isPair) (by simp)
    | empty =>
        obtain ⟨same, rfl, _⟩ := List.cons_eq_cons.1 isPair
        exact ⟨(injective same).symm, .inl ⟨rfl, rfl⟩⟩
    | named _ other =>
        obtain ⟨same, rfl, _⟩ := List.cons_eq_cons.1 isPair
        exact ⟨(injective same).symm, .inr ⟨other, rfl, rfl⟩⟩
  · rintro ⟨rfl, ⟨rfl, rfl⟩ | ⟨other, rfl, rfl⟩⟩
    · exact .empty name
    · exact .named name other

/-- The last fields of a line are read as names if they are some. -/
theorem names_eq_ok {α : Type} {parse : String → Checked α} {text : α → String}
    (parses : ∀ {field name}, parse field = .ok name ↔ text name = field) (nonempty : ∀ name, text name ≠ "")
    {line : Line} {name : α} {mapped : Option α} :
    line.names parse = .ok (name, mapped) ↔ NameFields text line.rest name mapped := by
  obtain ⟨number, indent, head, fields⟩ := line
  constructor
  · intro success
    rcases fields with _ | ⟨first, rest⟩
    · cases success
    obtain ⟨_, next, afterNext⟩ := Checked.bind_eq_ok.1 success
    cases next
    obtain ⟨own, parsed, others⟩ := Checked.bind_eq_ok.1 afterNext
    obtain rfl := parses.1 (Checked.within_eq_ok.1 parsed)
    clear success afterNext
    -- the fields after the first name tell what the second one is
    rcases rest with _ | ⟨second, _ | ⟨third, more⟩⟩
    · cases others
      exact .single name
    · by_cases isEmpty : second = ""
      · simp only [List.head?_cons, isEmpty, if_true] at others
        cases others
        exact isEmpty ▸ .empty name
      · simp only [List.head?_cons, isEmpty, if_false] at others
        obtain ⟨_, isSome, ends⟩ := Checked.bind_eq_ok.1 others
        obtain ⟨other, otherParsed, rfl⟩ := Checked.map_eq_ok.1 isSome
        obtain rfl := parses.1 (Checked.within_eq_ok.1 otherParsed)
        cases ends
        exact .named name other
    · simp only [List.head?_cons] at others
      split at others
      · cases others
      · obtain ⟨_, _, refused⟩ := Checked.bind_eq_ok.1 others
        cases refused
  · intro written
    have own : parse (text name) = .ok name := parses.2 rfl
    cases written with
    | single => simp [Line.names, Line.next, own, Checked.within, bind, Except.bind, pure, Except.pure]
    | empty => simp [Line.names, Line.next, own, Checked.within, bind, Except.bind, pure, Except.pure]
    | named _ other =>
        have second : parse (text other) = .ok other := parses.2 rfl
        simp [Line.names, Line.next, own, second, nonempty, Checked.within, bind, Except.bind, pure,
          Except.pure,
          Functor.map, Except.map]

/-! ## Headers -/

/-- The line is a header with these namespaces, whatever its indentation. -/
def Line.IsHeader (line : Line) (namespaces : Namespaces) : Prop :=
  line.head = "tiny" ∧ line.rest = ["2", "0", namespaces.obfuscated, namespaces.deobfuscated]

/-- Two texts make namespaces that consist of them. -/
theorem ofPair_eq_ok {obfuscated deobfuscated : String} {namespaces : Namespaces} :
    Namespaces.ofPair obfuscated deobfuscated = .ok namespaces
      ↔ namespaces.obfuscated = obfuscated ∧ namespaces.deobfuscated = deobfuscated := by
  unfold Namespaces.ofPair
  constructor
  · intro success
    split at success
    · simp at success
    · split at success
      · simp at success
      · cases success
        exact ⟨rfl, rfl⟩
  · rintro ⟨rfl, rfl⟩
    rw [dif_neg (not_or.2 ⟨namespaces.obfuscated_ne, namespaces.deobfuscated_ne⟩),
      dif_neg namespaces.distinct]

private theorem fields_of_next {line later : Line} {field : String}
    (success : line.next = .ok (field, later)) :
    line.rest = field :: later.rest := by
  unfold Line.next at success
  split at success
  · simp at success
  · rename_i isRest
    cases success
    exact isRest

/-- A line is read as a header if it is one. -/
theorem readHeader_eq_ok {line : Line} {namespaces : Namespaces} :
    readHeader line = .ok namespaces ↔ line.IsHeader namespaces := by
  constructor
  · intro success
    unfold readHeader at success
    split at success
    · rename_i isTiny
      obtain ⟨⟨major, later⟩, next, afterMajor⟩ := Checked.bind_eq_ok.1 success
      dsimp only at afterMajor
      split at afterMajor
      · rename_i isMajor
        obtain ⟨⟨minor, last⟩, nextMinor, afterMinor⟩ := Checked.bind_eq_ok.1 afterMajor
        dsimp only at afterMinor
        split at afterMinor
        · rename_i isMinor
          have names := Checked.within_eq_ok.1 afterMinor
          unfold Namespaces.ofList at names
          split at names
          · rename_i isRest
            obtain ⟨rfl, rfl⟩ := ofPair_eq_ok.1 names
            refine ⟨isTiny, ?_⟩
            rw [fields_of_next next, fields_of_next nextMinor, isMajor, isMinor, isRest]
          · simp at names
        · simp at afterMinor
      · simp at afterMajor
    · simp at success
  · rintro ⟨isTiny, fields⟩
    have pair : Namespaces.ofPair namespaces.obfuscated namespaces.deobfuscated = .ok namespaces :=
      ofPair_eq_ok.2 ⟨rfl, rfl⟩
    simp [readHeader, Line.next, isTiny, fields, Namespaces.ofList, pair, bind, Except.bind, Checked.within]

/-! ## Class lines -/

/-- What a class stores of its deobfuscated name. -/
def storedPart (name deobfuscated : ClassName) : String :=
  if name.isInner then deobfuscated.lastPart else deobfuscated.text

private theorem mappedPart_eq (entry : ClassEntry) (deobfuscated : ClassName) :
    mappedPart entry deobfuscated = storedPart entry.name deobfuscated := rfl

/-- A simple text has no reserved character but perhaps `$`. -/
theorem any_isReserved {text : List Char} (simple : isSimpleText text = true) :
    (text.isEmpty || text.any ClassEntry.isReserved) = true ↔ '$' ∈ text := by
  simp only [isSimpleText, Bool.and_eq_true, Bool.not_eq_true', List.all_eq_true] at simple
  rw [simple.1, Bool.false_or, List.any_eq_true]
  constructor
  · rintro ⟨c, member, reserved⟩
    have plain := simple.2 c member
    simp only [isNameChar, Bool.and_eq_true, decide_eq_true_eq] at plain
    simp only [ClassEntry.isReserved, Bool.or_eq_true, decide_eq_true_eq, plain.1.1.1, plain.1.1.2,
      plain.1.2, plain.2, or_false] at reserved
    exact reserved ▸ member
  · intro member
    exact ⟨'$', member, by decide⟩

/-- Only a `$` in the last part keeps a class from taking its part of a class name. -/
theorem rename_mappedPart {entry renamed : ClassEntry} {seen : ClassName} :
    entry.rename (mappedPart entry seen) = .ok renamed
      ↔ (entry.name.isInner = true → '$' ∉ seen.lastPart.toList)
        ∧ renamed = { entry with mapped := storedPart entry.name seen } := by
  rw [mappedPart_eq, ClassEntry.rename, Checked.bind_eq_ok]
  unfold ClassEntry.checkMapped storedPart
  by_cases isNested : entry.name.isInner = true
  · simp only [isNested, if_true, any_isReserved seen.isSimpleText_lastPart, forall_true_left]
    by_cases dollar : '$' ∈ seen.lastPart.toList
    · simp [dollar]
    · simpa [dollar, Checked.pure_eq_ok] using eq_comm
  · simpa [isNested, ClassName.check, seen.valid, Checked.pure_eq_ok] using eq_comm

/-- The line gives the class a deobfuscated name, or none. A nested class takes the last part only,
which must not have a `$` then. -/
structure Line.TellsClass (line : Line) (name : ClassName) (mapped : Option ClassName) : Prop where
  fields : NameFields ClassName.text line.rest name mapped
  plain : ∀ seen, mapped = some seen → name.isInner = true → '$' ∉ seen.lastPart.toList

/-- What a class line does to the entry of its class. -/
def nameAs (name : ClassName) : Option ClassName → ClassEntry → ClassEntry
  | none, entry => entry
  | some seen, entry => { entry with mapped := storedPart name seen }

/-- A class line is read if it tells about a class, which gets the mapped name. -/
theorem readClass_eq_ok {table : Table} (sound : table.Sound) {line : Line} {result : ClassName × Table} :
    readClass table line = .ok result
      ↔ ∃ name mapped, line.TellsClass name mapped
        ∧ result = (name, table.update name (nameAs name mapped)) := by
  -- what is checked is the entry of the class itself, as it is stored or a fresh one
  have named (name : ClassName) : (table.entryOf name).name = name := sound.name_entryOf name
  have written (name : ClassName) (mapped : Option ClassName) :
      line.names ClassName.parse = .ok (name, mapped) ↔ NameFields ClassName.text line.rest name mapped :=
    names_eq_ok ClassName.parse_eq_ok ClassName.text_ne_empty
  rw [readClass, Checked.bind_eq_ok]
  constructor
  · rintro ⟨⟨name, mapped⟩, read, success⟩
    have fields := (written name mapped).1 read
    cases mapped with
    | none => exact ⟨name, none, ⟨fields, by simp⟩, (Checked.pure_eq_ok.1 success).symm⟩
    | some seen =>
        obtain ⟨renamed, checked, done⟩ := Checked.bind_eq_ok.1 success
        obtain ⟨plain, isRenamed⟩ := rename_mappedPart.1 checked
        rw [named] at plain
        refine ⟨name, some seen, ⟨fields, ?_⟩, ?_⟩
        · rintro _ ⟨⟩
          exact plain
        · rw [← Checked.pure_eq_ok.1 done, isRenamed, named]
          rfl
  · rintro ⟨name, mapped, told, rfl⟩
    refine ⟨(name, mapped), (written name mapped).2 told.fields, ?_⟩
    cases mapped with
    | none => rfl
    | some seen =>
        have plain := told.plain seen rfl
        rw [← named name] at plain
        refine Checked.bind_eq_ok.2 ⟨_, rename_mappedPart.2 ⟨plain, rfl⟩, ?_⟩
        rw [named]
        rfl

/-! ## Member lines -/

/-- The row of a member, perhaps without a deobfuscated name. -/
inductive MemberRow where
  | field (name : FieldName) (type : FieldType) (mapped : Option FieldName)
  | method (signature : MethodSignature) (mapped : Option MethodName)

/-- What the row does to the entry of the class above it. -/
def MemberRow.add : MemberRow → ClassEntry → ClassEntry
  | field name type none, entry => entry.touchField ⟨name, some type⟩
  | field name type (some mapped), entry => entry.mapField ⟨name, some type⟩ mapped
  | method signature none, entry => entry.touchMethod signature
  | method signature (some mapped), entry => entry.mapMethod signature mapped

/-- The line tells about a member. -/
inductive Line.TellsMember (line : Line) : MemberRow → Prop where
  | field {name : FieldName} {type : FieldType} {mapped : Option FieldName} {names : List String}
      (head : line.head = "f") (fields : line.rest = type.descriptor :: names)
      (written : NameFields FieldName.text names name mapped) : line.TellsMember (.field name type mapped)
  | method {signature : MethodSignature} {mapped : Option MethodName} {names : List String}
      (head : line.head = "m") (fields : line.rest = signature.type.descriptor :: names)
      (written : NameFields MethodName.text names signature.name mapped) :
      line.TellsMember (.method signature mapped)

/-- A line below a class line is passed over, or tells about a member, which is added. -/
theorem readMember_eq_ok {table after : Table} {owner : ClassName} {line : Line} :
    readMember table owner line = .ok after
      ↔ (line.head ≠ "f" ∧ line.head ≠ "m" ∧ after = table)
        ∨ ∃ member, line.TellsMember member ∧ after = table.update owner member.add := by
  constructor
  · intro success
    unfold readMember at success
    split at success
    · rename_i isField
      obtain ⟨⟨descriptor, later⟩, next, afterNext⟩ := Checked.bind_eq_ok.1 success
      obtain ⟨type, parsedType, afterType⟩ := Checked.bind_eq_ok.1 afterNext
      obtain ⟨⟨name, mapped⟩, names, done⟩ := Checked.bind_eq_ok.1 afterType
      have written := (names_eq_ok FieldName.parse_eq_ok FieldName.text_ne_empty).1 names
      have fields := fields_of_next next
      rw [← FieldType.parse_eq_ok.1 parsedType] at fields
      refine .inr ⟨_, .field isField fields written, ?_⟩
      cases mapped <;> exact (Checked.pure_eq_ok.1 done).symm
    · rename_i notField
      split at success
      · rename_i isMethod
        obtain ⟨⟨descriptor, later⟩, next, afterNext⟩ := Checked.bind_eq_ok.1 success
        obtain ⟨type, parsedType, afterType⟩ := Checked.bind_eq_ok.1 afterNext
        obtain ⟨⟨name, mapped⟩, names, done⟩ := Checked.bind_eq_ok.1 afterType
        have written := (names_eq_ok MethodName.parse_eq_ok MethodName.text_ne_empty).1 names
        have fields := fields_of_next next
        rw [← MethodType.parse_eq_ok.1 parsedType] at fields
        refine .inr ⟨.method ⟨name, type⟩ mapped, .method isMethod fields written, ?_⟩
        cases mapped <;> exact (Checked.pure_eq_ok.1 done).symm
      · rename_i notMethod
        exact .inl ⟨notField, notMethod, (Checked.pure_eq_ok.1 success).symm⟩
  · rintro (⟨notField, notMethod, rfl⟩ | ⟨member, told, rfl⟩)
    · rw [readMember, if_neg notField, if_neg notMethod]
      rfl
    · cases told with
      | @field name type mapped names head fields written =>
          have next : line.next = .ok (type.descriptor, { line with rest := names }) := by
            rw [Line.next, fields]
          have parsedType : FieldType.parse type.descriptor = .ok type := FieldType.parse_eq_ok.2 rfl
          rw [readMember, if_pos head]
          refine Checked.bind_eq_ok.2 ⟨_, next, Checked.bind_eq_ok.2 ⟨type, parsedType, ?_⟩⟩
          refine Checked.bind_eq_ok.2 ⟨(name, mapped), ?_, by cases mapped <;> rfl⟩
          exact (names_eq_ok FieldName.parse_eq_ok FieldName.text_ne_empty).2 written
      | @method signature mapped names head fields written =>
          have next : line.next = .ok (signature.type.descriptor, { line with rest := names }) := by
            rw [Line.next, fields]
          have parsedType : MethodType.parse signature.type.descriptor = .ok signature.type :=
            MethodType.parse_eq_ok.2 rfl
          rw [readMember, if_neg (by rw [head]; decide), if_pos head]
          refine Checked.bind_eq_ok.2 ⟨_, next, Checked.bind_eq_ok.2 ⟨signature.type, parsedType, ?_⟩⟩
          refine Checked.bind_eq_ok.2 ⟨(signature.name, mapped), ?_, by cases mapped <;> rfl⟩
          exact (names_eq_ok MethodName.parse_eq_ok MethodName.text_ne_empty).2 written

end Tiny

end MixinLink
