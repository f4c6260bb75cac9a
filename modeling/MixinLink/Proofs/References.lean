import MixinLink.Proofs.Signatures
import MixinLink.Reference

/-!
# Reading written references

Which references a text can mean is decided by the first `(`, `:` or `;` in it. Whatever is read is written
as the text it was read from. A reference is read back from its written form exactly if its names bring no
such mark to where it would be taken for another, and a class exactly if its spelling can be seen.

Main exports: `MemberReference.Plain`, `MemberReference.parse_eq_ok`, `ClassReference.parse_eq_ok`,
`PointReference.parse_eq_ok`, `PointReference.parse_writePointMember`, `PointReference.parse_write`,
`references_read_back`.
-/

namespace MixinLink

/-! ## Members -/

namespace MemberReference

/-- The names bring no mark to where it would be taken for the start of a type. -/
def Plain : MemberReference → Prop
  | bare name => '(' ∉ name.text.toList ∧ ':' ∉ name.text.toList
  | method signature => '(' ∉ signature.name.text.toList
  | field name type => '(' ∉ name.text.toList ∧ ':' ∉ name.text.toList ∧ '(' ∉ type.chars

variable {text : String} {reference : MemberReference}

private theorem parse_of_paren (paren : '(' ∈ text.toList) :
    parse text = .method <$> MethodSignature.parse text := by
  unfold parse MethodSignature.parse
  cases found : Text.splitFirst? '(' text.toList with
  | none => exact absurd paren (Text.splitFirst?_eq_none.1 found)
  | some parts => simp only [map_bind, map_pure]

private theorem parse_of_colon (noParen : '(' ∉ text.toList) (colon : ':' ∈ text.toList) :
    parse text = .ok reference
      ↔ ∃ name type, reference = .field name type ∧ FieldSignature.parse text = .ok ⟨name, some type⟩ := by
  unfold parse FieldSignature.parse
  rw [Text.splitFirst?_eq_none.2 noParen]
  cases found : Text.splitFirst? ':' text.toList with
  | none => exact absurd colon (Text.splitFirst?_eq_none.1 found)
  | some parts =>
      simp only [Checked.bind_eq_ok, Checked.pure_eq_ok]
      constructor
      · rintro ⟨name, isName, type, isType, rfl⟩
        exact ⟨name, type, rfl, name, isName, type, isType, rfl⟩
      · rintro ⟨name, type, rfl, _, isName, _, isType, same⟩
        cases same
        exact ⟨name, isName, type, isType, rfl⟩

private theorem parse_of_neither (noParen : '(' ∉ text.toList) (noColon : ':' ∉ text.toList) :
    parse text = .bare <$> MethodName.parse text := by
  unfold parse
  rw [Text.splitFirst?_eq_none.2 noParen, Text.splitFirst?_eq_none.2 noColon]

/-- What a text is read as can be read back, and has this text. -/
theorem plain_and_text_of_parse (success : parse text = .ok reference) :
    reference.Plain ∧ reference.text = text := by
  by_cases paren : '(' ∈ text.toList
  · rw [parse_of_paren paren] at success
    obtain ⟨signature, reads, rfl⟩ := Checked.map_eq_ok.1 success
    exact MethodSignature.parse_eq_ok.1 reads
  by_cases colon : ':' ∈ text.toList
  · obtain ⟨name, type, rfl, reads⟩ := (parse_of_colon paren colon).1 success
    obtain ⟨noColon, rfl⟩ := FieldSignature.parse_eq_ok.1 reads
    rw [FieldSignature.toList_text_typed, List.mem_append, List.mem_cons, not_or, not_or] at paren
    exact ⟨⟨paren.1, noColon, paren.2.2⟩, rfl⟩
  · rw [parse_of_neither paren colon] at success
    obtain ⟨name, isName, rfl⟩ := Checked.map_eq_ok.1 success
    cases MethodName.parse_eq_ok.1 isName
    exact ⟨⟨paren, colon⟩, rfl⟩

/-- A reference that can be read back is read back. -/
theorem parse_text (plain : reference.Plain) : parse reference.text = .ok reference := by
  cases reference with
  | bare name =>
      rw [text, parse_of_neither plain.1 plain.2]
      exact Checked.map_eq_ok.2 ⟨name, MethodName.parse_eq_ok.2 rfl, rfl⟩
  | method signature =>
      have paren : '(' ∈ signature.text.toList := by simp [MethodSignature.toList_text]
      rw [text, parse_of_paren paren]
      exact Checked.map_eq_ok.2 ⟨signature, MethodSignature.parse_text plain, rfl⟩
  | field name type =>
      obtain ⟨nameParen, nameColon, typeParen⟩ := plain
      have noParen : '(' ∉ (FieldSignature.mk name (some type)).text.toList := by
        simp [FieldSignature.toList_text_typed, nameParen, typeParen]
      have colon : ':' ∈ (FieldSignature.mk name (some type)).text.toList := by
        simp [FieldSignature.toList_text_typed]
      exact (parse_of_colon noParen colon).2 ⟨name, type, rfl, FieldSignature.parse_text nameColon⟩

/-- A text is read as the reference that can be read back and has this text. -/
theorem parse_eq_ok : parse text = .ok reference ↔ reference.Plain ∧ reference.text = text := by
  constructor
  · exact plain_and_text_of_parse
  · rintro ⟨plain, rfl⟩
    exact parse_text plain

/-- No reference has an empty text. -/
theorem text_ne_empty (reference : MemberReference) : reference.text.toList ≠ [] := by
  cases reference with
  | bare name =>
      intro empty
      have valid := name.valid
      rw [MemberReference.text] at empty
      rw [empty] at valid
      exact absurd valid (by decide)
  | method signature =>
      simp [MemberReference.text, MethodSignature.text, MethodType.descriptor, MethodType.chars]
  | field name type => simp [MemberReference.text]

end MemberReference

/-! ## Classes and points -/

/-- The spelling that a class name is read as: without a package, slashes look like dots. -/
def ClassSpelling.seen (spelling : ClassSpelling) (name : ClassName) : ClassSpelling :=
  match spelling with
  | slashes => if '/' ∈ name.text.toList then slashes else dots
  | dots => dots
  | descriptor => descriptor

/-- A class name can be read where dots are allowed. -/
theorem ClassName.parseDotted_text (name : ClassName) : parseDotted name.text = .ok name := by
  refine parse_eq_ok.2 ?_
  apply String.toList_injective
  have unchanged : Text.replaceChar '.' '/' name.text.toList = name.text.toList := by
    refine (List.map_congr_left fun c member => if_neg ?_).trans (List.map_id _)
    rintro rfl
    exact name.dot_not_mem member
  rw [unchanged, String.toList_ofList]

private theorem ClassName.parseDotted_dotted (name : ClassName) : parseDotted name.dotted = .ok name := by
  refine parse_eq_ok.2 ?_
  apply String.toList_injective
  have back : Text.replaceChar '.' '/' (Text.replaceChar '/' '.' name.text.toList)
      = name.text.toList := by
    unfold Text.replaceChar
    rw [List.map_map]
    refine (List.map_congr_left fun c member => ?_).trans (List.map_id _)
    by_cases slash : c = '/'
    · simp [slash]
    · have notDot : c ≠ '.' := by
        rintro rfl
        exact name.dot_not_mem member
      simp [slash, notDot]
  rw [String.toList_ofList, dotted, String.toList_ofList, back]

private theorem ClassName.slash_not_mem_dotted (name : ClassName) : '/' ∉ name.dotted.toList := by
  intro member
  rw [dotted, String.toList_ofList, Text.replaceChar, List.mem_map] at member
  obtain ⟨c, _, isSlash⟩ := member
  split at isSlash
  · cases isSlash
  · contradiction

/-- There is no semicolon in a class name with dots. -/
theorem ClassName.semicolon_not_mem_dotted (name : ClassName) : ';' ∉ name.dotted.toList := by
  intro member
  rw [dotted, String.toList_ofList, Text.replaceChar, List.mem_map] at member
  obtain ⟨c, inName, isSemicolon⟩ := member
  split at isSemicolon
  · cases isSemicolon
  · subst isSemicolon
    exact name.semicolon_not_mem inName

namespace ClassReference

/-- The class is not written like a descriptor, and its spelling can be seen. -/
def Plain (reference : ClassReference) : Prop :=
  reference.spelling ≠ .descriptor ∧ reference.spelling.seen reference.name = reference.spelling

/-- What a text is read as has this text. -/
theorem text_of_parse {text : String} {reference : ClassReference}
    (success : parse text = .ok reference) : reference.text = text := by
  unfold parse at success
  split at success
  · obtain ⟨name, isName, rfl⟩ := Checked.map_eq_ok.1 success
    exact ClassName.parse_eq_ok.1 isName
  · rename_i noSlash
    obtain ⟨name, isName, rfl⟩ := Checked.map_eq_ok.1 success
    have nameText := ClassName.parse_eq_ok.1 isName
    apply String.toList_injective
    have back : Text.replaceChar '/' '.' (Text.replaceChar '.' '/' text.toList) = text.toList := by
      unfold Text.replaceChar
      rw [List.map_map]
      refine (List.map_congr_left fun c member => ?_).trans (List.map_id _)
      by_cases dot : c = '.'
      · simp [dot]
      · have notSlash : c ≠ '/' := by
          rintro rfl
          exact noSlash member
        simp [dot, notSlash]
    simp only [ClassReference.text, write, ClassSpelling.write, ClassName.dotted, nameText,
      String.toList_ofList, back]

private theorem spelling_of_parse {text : String} {reference : ClassReference}
    (success : parse text = .ok reference) :
    reference.spelling ≠ .descriptor := by
  unfold parse at success
  split at success
  · obtain ⟨name, _, rfl⟩ := Checked.map_eq_ok.1 success
    exact ClassSpelling.noConfusion
  · obtain ⟨name, _, rfl⟩ := Checked.map_eq_ok.1 success
    exact ClassSpelling.noConfusion

private theorem semicolon_not_mem_write {spelling : ClassSpelling} (notDescriptor : spelling ≠ .descriptor)
    (name : ClassName) : ';' ∉ (spelling.write name).toList := by
  cases spelling with
  | slashes => exact name.semicolon_not_mem
  | dots => exact name.semicolon_not_mem_dotted
  | descriptor => exact absurd rfl notDescriptor

/-- A class that is written is read back, in the spelling that can be seen. -/
theorem parse_write {spelling : ClassSpelling} (notDescriptor : spelling ≠ .descriptor) (name : ClassName) :
    parse (spelling.write name) = .ok ⟨name, spelling.seen name⟩ := by
  unfold parse
  cases spelling with
  | slashes =>
      rw [ClassSpelling.write, ClassSpelling.seen]
      by_cases packaged : '/' ∈ name.text.toList
      · rw [if_pos packaged, if_pos packaged]
        exact Checked.map_eq_ok.2 ⟨name, ClassName.parse_eq_ok.2 rfl, rfl⟩
      · rw [if_neg packaged, if_neg packaged]
        exact Checked.map_eq_ok.2 ⟨name, name.parseDotted_text, rfl⟩
  | dots =>
      rw [ClassSpelling.write, if_neg name.slash_not_mem_dotted]
      exact Checked.map_eq_ok.2 ⟨name, name.parseDotted_dotted, rfl⟩
  | descriptor => exact absurd rfl notDescriptor

/-- A text is read as the class that can be read back and has this text. -/
theorem parse_eq_ok {text : String} {reference : ClassReference} :
    parse text = .ok reference ↔ reference.Plain ∧ reference.text = text := by
  constructor
  · intro success
    have notDescriptor := spelling_of_parse success
    have written := text_of_parse success
    have again := parse_write notDescriptor reference.name
    rw [show reference.spelling.write reference.name = text from written, success] at again
    rw [Except.ok.injEq] at again
    exact ⟨⟨notDescriptor, (congrArg spelling again).symm⟩, written⟩
  · rintro ⟨⟨notDescriptor, seen⟩, rfl⟩
    have again := parse_write notDescriptor reference.name
    rwa [seen] at again

end ClassReference

namespace PointReference

/-- A text can be read as one reference only, and is how that reference is written. -/
theorem text_of_parse {text : String} {reference : PointReference} (success : parse text = .ok reference) :
    reference.text = text := by
  unfold parse at success
  split at success
  · obtain ⟨ofClass, isClass, rfl⟩ := Checked.map_eq_ok.1 success
    exact ClassReference.text_of_parse isClass
  · rename_i owner member found
    obtain ⟨whole, _⟩ := Text.splitFirst?_eq_some found
    obtain ⟨name, isName, success⟩ := Checked.bind_eq_ok.1 success
    have nameText := ClassName.parse_eq_ok.1 isName
    apply String.toList_injective
    split at success
    · rename_i noMember
      cases Checked.pure_eq_ok.1 success
      rw [List.isEmpty_iff] at noMember
      simp [PointReference.text, ClassReference.text, ClassReference.write, ClassSpelling.write, nameText,
        whole, noMember]
    · obtain ⟨reference, isMember, success⟩ := Checked.bind_eq_ok.1 success
      cases Checked.pure_eq_ok.1 success
      have memberText := (MemberReference.parse_eq_ok.1 isMember).2
      simp [PointReference.text, writePointMember, nameText, memberText, whole]
  · simp at success

/-- The member that an injection point refers to can be read back. -/
theorem plain_of_parse {text : String} {owner : ClassName} {member : MemberReference}
    (success : parse text = .ok (.ofMember owner member)) : member.Plain := by
  unfold parse at success
  split at success
  · obtain ⟨_, _, isMember⟩ := Checked.map_eq_ok.1 success
    cases isMember
  · obtain ⟨name, _, success⟩ := Checked.bind_eq_ok.1 success
    split at success
    · cases Checked.pure_eq_ok.1 success
    · obtain ⟨reference, isMember, success⟩ := Checked.bind_eq_ok.1 success
      cases Checked.pure_eq_ok.1 success
      exact (MemberReference.parse_eq_ok.1 isMember).1
  · simp at success

/-- An injection point at such a member is read back. -/
theorem parse_writePointMember (owner : ClassName) {member : MemberReference} (plain : member.Plain) :
    parse (writePointMember owner member) = .ok (.ofMember owner member) := by
  have starts : (writePointMember owner member).toList
      = ('L' :: owner.text.toList) ++ ';' :: member.text.toList := by
    simp [writePointMember]
  have absent : ';' ∉ 'L' :: owner.text.toList := by
    simp [owner.semicolon_not_mem]
  have found := Text.splitFirst?_append member.text.toList absent
  unfold parse
  simp only [starts, found]
  refine Checked.bind_eq_ok.2 ⟨owner, ClassName.parse_eq_ok.2 (by simp), ?_⟩
  rw [if_neg (by simpa using member.text_ne_empty), String.ofList_toList]
  exact Checked.bind_eq_ok.2 ⟨member, MemberReference.parse_text plain, rfl⟩

/-- An injection point at a class is read back, in any spelling. -/
theorem parse_write (spelling : ClassSpelling) (name : ClassName) :
    parse (spelling.write name) = .ok (.ofClass ⟨name, spelling.seen name⟩) := by
  unfold parse
  by_cases isDescriptor : spelling = .descriptor
  · subst isDescriptor
    have starts : (ClassSpelling.descriptor.write name).toList
        = ('L' :: name.text.toList) ++ ';' :: [] := by
      simp [ClassSpelling.write]
    have absent : ';' ∉ 'L' :: name.text.toList := by
      simp [name.semicolon_not_mem]
    have found := Text.splitFirst?_append [] absent
    simp only [starts, found]
    exact Checked.bind_eq_ok.2 ⟨name, ClassName.parse_eq_ok.2 (by simp), rfl⟩
  · rw [Text.splitFirst?_eq_none.2 (ClassReference.semicolon_not_mem_write isDescriptor name)]
    exact Checked.map_eq_ok.2 ⟨_, ClassReference.parse_write isDescriptor name, rfl⟩

/-- The spelling of the class can be seen, or the names of the member bring no mark of their own. -/
def Plain : PointReference → Prop
  | ofClass reference => reference.spelling.seen reference.name = reference.spelling
  | ofMember _ member => member.Plain

/-- A text is read as the injection point that can be read back and has this text. -/
theorem parse_eq_ok {text : String} {reference : PointReference} :
    parse text = .ok reference ↔ reference.Plain ∧ reference.text = text := by
  constructor
  · intro success
    have written := text_of_parse success
    refine ⟨?_, written⟩
    cases reference with
    | ofClass reference =>
        have again := parse_write reference.spelling reference.name
        rw [show reference.spelling.write reference.name = text from written, success] at again
        rw [Except.ok.injEq, ofClass.injEq] at again
        exact (congrArg ClassReference.spelling again).symm
    | ofMember owner member => exact plain_of_parse success
  · rintro ⟨plain, rfl⟩
    cases reference with
    | ofClass reference =>
        have again := parse_write reference.spelling reference.name
        rwa [show reference.spelling.seen reference.name = reference.spelling from plain] at again
    | ofMember owner member => exact parse_writePointMember owner plain

/-- A member of a class is read back exactly if the member alone is. -/
theorem parse_writePointMember_iff {owner : ClassName} {member : MemberReference} :
    parse (writePointMember owner member) = .ok (.ofMember owner member)
      ↔ MemberReference.parse member.text = .ok member := by
  rw [parse_eq_ok, MemberReference.parse_eq_ok]
  exact and_congr Iff.rfl (iff_of_true rfl rfl)

end PointReference

/-- Signatures and references of all kinds are written as they are read, and read as they are written if they
are plain. -/
theorem references_read_back :
    Checked.ReadsBack FieldSignature.parse FieldSignature.text (fun signature =>
        ':' ∉ signature.name.text.toList)
      ∧ Checked.ReadsBack MethodSignature.parse MethodSignature.text (fun signature =>
        '(' ∉ signature.name.text.toList)
      ∧ Checked.ReadsBack MemberReference.parse MemberReference.text MemberReference.Plain
      ∧ Checked.ReadsBack ClassReference.parse ClassReference.text ClassReference.Plain
      ∧ Checked.ReadsBack PointReference.parse PointReference.text PointReference.Plain
      ∧ ∀ owner member, PointReference.parse (writePointMember owner member) = .ok (.ofMember owner member)
        ↔ MemberReference.parse member.text = .ok member := by
  have fields := Checked.readsBack_of_parse_eq_ok @FieldSignature.parse_eq_ok
  have methods := Checked.readsBack_of_parse_eq_ok @MethodSignature.parse_eq_ok
  have members := Checked.readsBack_of_parse_eq_ok @MemberReference.parse_eq_ok
  have classes := Checked.readsBack_of_parse_eq_ok @ClassReference.parse_eq_ok
  have points := Checked.readsBack_of_parse_eq_ok @PointReference.parse_eq_ok
  exact ⟨fields, methods, members, classes, points, fun _ _ => PointReference.parse_writePointMember_iff⟩

end MixinLink
