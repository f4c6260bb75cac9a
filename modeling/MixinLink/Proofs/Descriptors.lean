import MixinLink.Descriptor

/-!
# Reading and writing descriptors

Every type is read back from its descriptor, and only the descriptor of a type is read as that type. Both
are first shown for a type in front of any other text, which is how the types of a method's parameters
stand.

Main exports: `FieldType.parse_eq_ok`, `MethodType.parse_eq_ok`, `ClassName.plain_of_mem`.
-/

namespace MixinLink

private theorem Text.mem_segments {sep c : Char} {text : List Char} (member : c ∈ text) :
    c = sep ∨ ∃ piece ∈ segments sep text, c ∈ piece := by
  induction text with
  | nil => simp at member
  | cons first rest ih =>
      by_cases isSep : first = sep
      · rcases List.mem_cons.1 member with rfl | later
        · exact .inl isSep
        · simp only [segments, isSep, if_true, List.mem_cons, exists_eq_or_imp]
          exact (ih later).imp_right .inr
      · simp only [segments, isSep, if_false]
        split
        · rename_i noPieces
          exact absurd noPieces (segments_ne_nil sep rest)
        · rename_i piece pieces split
          rcases List.mem_cons.1 member with rfl | later
          · exact .inr ⟨_, List.mem_cons_self, List.mem_cons_self⟩
          · refine (ih later).imp_right ?_
            rintro ⟨other, isPiece, inside⟩
            rw [split] at isPiece
            rcases List.mem_cons.1 isPiece with rfl | isLater
            · exact ⟨_, List.mem_cons_self, List.mem_cons_of_mem _ inside⟩
            · exact ⟨other, List.mem_cons_of_mem _ isLater, inside⟩

/-- Apart from `/`, the characters of a class name are those of simple names. -/
theorem ClassName.plain_of_mem (name : ClassName) {c : Char} (member : c ∈ name.text.toList) :
    c = '/' ∨ isNameChar c = true := by
  refine (Text.mem_segments member).imp_right ?_
  rintro ⟨piece, isPiece, inside⟩
  have simple := List.all_eq_true.1 name.valid piece isPiece
  exact (isSimpleText_iff.1 simple).2 c inside

/-- A class name has no semicolon. -/
theorem ClassName.semicolon_not_mem (name : ClassName) : ';' ∉ name.text.toList := by
  intro member
  simpa [isNameChar] using name.plain_of_mem member

/-- A class name has no dot. -/
theorem ClassName.dot_not_mem (name : ClassName) : '.' ∉ name.text.toList := by
  intro member
  simpa [isNameChar] using name.plain_of_mem member

/-! ## Base types -/

namespace BaseType

private theorem read_chars (type : BaseType) (rest : List Char) :
    read (type.chars ++ rest) = .ok (type, rest) := by
  cases type with
  | primitive type => cases type <;> rfl
  | object name =>
      have split := Text.splitFirst?_append rest name.semicolon_not_mem
      have parsed : ClassName.parse (String.ofList name.text.toList) = .ok name := by
        rw [String.ofList_toList]
        exact ClassName.parse_eq_ok.2 rfl
      simp only [chars, List.cons_append, List.append_assoc, List.nil_append, read, split, parsed]

private theorem letter_of_ofLetter? {c : Char} {type : Primitive}
    (found : Primitive.ofLetter? c = some type) :
    type.letter = c := by
  unfold Primitive.ofLetter? at found
  split at found <;> cases found <;> rfl

private theorem eq_chars_of_read {text rest : List Char} {type : BaseType}
    (success : read text = .ok (type, rest)) : text = type.chars ++ rest := by
  unfold read at success
  split at success
  · simp at success
  · split at success
    · simp at success
    · rename_i name after found
      split at success
      · rename_i className parsed
        cases success
        have whole := (Text.splitFirst?_eq_some found).1
        have isName := ClassName.parse_eq_ok.1 parsed
        simp [chars, whole, isName]
      · cases success
  · split at success
    · rename_i primitive found
      cases success
      rw [chars, letter_of_ofLetter? found, List.singleton_append]
    · simp at success

/-- A base type starts neither like an array, nor like the end of the parameters, nor like no result. -/
theorem head_chars (type : BaseType) : ∃ first rest, type.chars = first :: rest
    ∧ first ≠ '[' ∧ first ≠ ')' ∧ first ≠ 'V' := by
  cases type with
  | primitive type => cases type <;> exact ⟨_, _, rfl, by decide, by decide, by decide⟩
  | object name => exact ⟨_, _, rfl, by decide, by decide, by decide⟩

end BaseType

/-! ## Field types -/

namespace FieldType

private theorem dropDimensions_replicate (depth : Nat) {first : Char} (rest : List Char)
    (notArray : first ≠ '[') :
    dropDimensions (List.replicate depth '[' ++ first :: rest) = (depth, first :: rest) := by
  induction depth with
  | zero =>
      rw [List.replicate_zero, List.nil_append, dropDimensions]
      rintro text ⟨⟩
      exact notArray rfl
  | succ depth ih =>
      rw [List.replicate_succ, List.cons_append, dropDimensions, ih]

private theorem replicate_dropDimensions (text : List Char) :
    List.replicate (dropDimensions text).1 '[' ++ (dropDimensions text).2 = text := by
  fun_induction dropDimensions text with
  | case1 text inner ih =>
      simp only [inner, List.replicate_succ, List.cons_append] at ih ⊢
      rw [ih]
  | case2 text => simp

private theorem read_chars (type : FieldType) (rest : List Char) :
    read (type.chars ++ rest) = .ok (type, rest) := by
  obtain ⟨first, others, starts, notArray, _⟩ := type.base.head_chars
  have dropped : dropDimensions (type.chars ++ rest) = (type.depth, type.base.chars ++ rest) := by
    rw [chars, List.append_assoc, starts, List.cons_append]
    exact dropDimensions_replicate _ _ notArray
  unfold read
  simp only [dropped, type.depth_le, BaseType.read_chars, dite_true]

private theorem eq_chars_of_read {text rest : List Char} {type : FieldType}
    (success : read text = .ok (type, rest)) : text = type.chars ++ rest := by
  unfold read at success
  split at success
  · split at success
    · rename_i base after found
      cases success
      have whole := BaseType.eq_chars_of_read found
      rw [chars, List.append_assoc, ← whole, replicate_dropDimensions]
    · cases success
  · simp at success

/-- A type starts neither like the end of the parameters nor like no result. -/
theorem head_chars (type : FieldType) : ∃ first rest, type.chars = first :: rest
    ∧ first ≠ ')' ∧ first ≠ 'V' := by
  unfold chars
  cases type.depth with
  | zero =>
      obtain ⟨first, others, starts, _, notClosed, notVoid⟩ := type.base.head_chars
      exact ⟨first, others, starts, notClosed, notVoid⟩
  | succ depth => exact ⟨_, _, rfl, by decide, by decide⟩

/-- A text is read as the type of a field that has this descriptor. -/
theorem parse_eq_ok {text : String} {type : FieldType} : parse text = .ok type ↔ type.descriptor = text := by
  unfold parse parseDescriptor descriptor
  rw [Checked.within_eq_ok]
  constructor
  · intro success
    split at success
    · cases success
    · rename_i read found
      cases success
      rw [← List.append_nil type.chars, ← eq_chars_of_read found, String.ofList_toList]
    · simp at success
  · rintro rfl
    have found := type.read_chars []
    rw [List.append_nil] at found
    simp only [String.toList_ofList, found]

end FieldType

/-! ## Method types -/

namespace MethodType

private theorem readParameters_cons {text rest : List Char} {type : FieldType}
    (success : FieldType.read text = .ok (type, rest)) (notClosed : ∀ after, text ≠ ')' :: after) :
    readParameters text
      = match readParameters rest with
        | .error failure => .error failure
        | .ok (types, after) => .ok (type :: types, after) := by
  rw [readParameters]
  · split
    · rename_i failed
      rw [success] at failed
      cases failed
    · rename_i found
      rw [success] at found
      cases found
      rfl
  · exact notClosed

private theorem readParameters_chars (parameters : List FieldType) (rest : List Char) :
    readParameters (parameters.flatMap FieldType.chars ++ ')' :: rest) = .ok (parameters, rest) := by
  induction parameters with
  | nil => rw [List.flatMap_nil, List.nil_append, readParameters]
  | cons type types ih =>
      obtain ⟨first, others, starts, notClosed, _⟩ := type.head_chars
      rw [List.flatMap_cons, List.append_assoc, readParameters_cons (type.read_chars _), ih]
      intro after same
      rw [starts, List.cons_append] at same
      exact notClosed (List.cons.inj same).1

private theorem eq_chars_of_readParameters {text rest : List Char} {parameters : List FieldType}
    (success : readParameters text = .ok (parameters, rest)) :
    text = parameters.flatMap FieldType.chars ++ ')' :: rest := by
  fun_induction readParameters text generalizing parameters with
  | case1 rest => cases success; rfl
  | case2 => cases success
  | case3 => cases success
  | case4 text notClosed type after found shorter types last readLater ih =>
      cases success
      rw [FieldType.eq_chars_of_read found, ih readLater, List.flatMap_cons, List.append_assoc]

private theorem readResult_chars (result : Option FieldType) :
    readResult (resultChars result) = .ok (result, []) := by
  cases result with
  | none => rfl
  | some type =>
      obtain ⟨first, others, starts, _, notVoid⟩ := type.head_chars
      have found := type.read_chars []
      rw [List.append_nil] at found
      rw [resultChars, readResult]
      · rw [found]
      · intro rest same
        rw [starts] at same
        exact notVoid (List.cons.inj same).1

private theorem eq_chars_of_readResult {text rest : List Char} {result : Option FieldType}
    (success : readResult text = .ok (result, rest)) : text = resultChars result ++ rest := by
  unfold readResult at success
  split at success
  · cases success
    rfl
  · split at success
    · cases success
    · rename_i found
      cases success
      exact FieldType.eq_chars_of_read found

/-- A text is read as the type of a method that has this descriptor. -/
theorem parse_eq_ok {text : String} {type : MethodType} :
    parse text = .ok type ↔ type.descriptor = text := by
  unfold parse parseDescriptor descriptor
  rw [Checked.within_eq_ok]
  constructor
  · intro success
    split at success
    · rename_i body starts
      split at success
      · cases success
      · rename_i parameters rest foundParameters
        split at success
        · cases success
        · rename_i result foundResult
          cases success
          have whole := eq_chars_of_readResult foundResult
          rw [List.append_nil] at whole
          rw [chars, ← whole, ← eq_chars_of_readParameters foundParameters, ← starts,
            String.ofList_toList]
        · simp at success
    · simp at success
  · rintro rfl
    simp only [String.toList_ofList, chars, readParameters_chars, readResult_chars]

end MethodType

end MixinLink
