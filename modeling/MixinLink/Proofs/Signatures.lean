import MixinLink.Proofs.Descriptors
import MixinLink.Signature

/-!
# Reading and writing signatures

A written signature is divided at the first `:` or in front of the first `(`. Whatever is read is written as
the text it was read from, and a signature is read back from its text exactly if its name brings no such
mark of its own.

Main exports: `Checked.ReadsBack`, `FieldSignature.parse_eq_ok`, `MethodSignature.parse_eq_ok`.
-/

namespace MixinLink

/-- Reading and writing fit together: what is read from a text is written as that text, and exactly the plain
values are read back from how they are written. -/
structure Checked.ReadsBack {α : Type} (parse : String → Checked α) (write : α → String)
    (Plain : α → Prop) : Prop where
  written : ∀ text value, parse text = .ok value → write value = text
  back : ∀ value, parse (write value) = .ok value ↔ Plain value

/-- What is read exactly as it is written is read back. -/
theorem Checked.readsBack_of_parse_eq_ok {α : Type} {parse : String → Checked α} {write : α → String}
    {Plain : α → Prop} (reads : ∀ {text value}, parse text = .ok value ↔ Plain value ∧ write value = text) :
    ReadsBack parse write Plain where
  written _ _ success := (reads.1 success).2
  back _ := reads.trans (and_iff_left rfl)

namespace FieldSignature

/-- The type of a field comes after a colon. -/
theorem toList_text_typed (name : FieldName) (type : FieldType) :
    (FieldSignature.mk name (some type)).text.toList = name.text.toList ++ ':' :: type.chars := by
  simp [text, FieldType.descriptor]

/-- The name of a field that was read has no colon, and its signature has the same text. -/
theorem plain_and_text_of_parse {text : String} {signature : FieldSignature}
    (success : parse text = .ok signature) :
    ':' ∉ signature.name.text.toList ∧ signature.text = text := by
  unfold parse at success
  split at success
  · rename_i name type found
    obtain ⟨whole, absent⟩ := Text.splitFirst?_eq_some found
    obtain ⟨fieldName, isName, success⟩ := Checked.bind_eq_ok.1 success
    obtain ⟨fieldType, isType, success⟩ := Checked.bind_eq_ok.1 success
    cases Checked.pure_eq_ok.1 success
    have nameText := FieldName.parse_eq_ok.1 isName
    have typeText := FieldType.parse_eq_ok.1 isType
    refine ⟨?_, ?_⟩
    · rw [nameText, String.toList_ofList]
      exact absent
    · apply String.toList_injective
      simp [FieldSignature.text, nameText, typeText, whole]
  · rename_i noType
    obtain ⟨name, isName, success⟩ := Checked.bind_eq_ok.1 success
    cases Checked.pure_eq_ok.1 success
    have nameText := FieldName.parse_eq_ok.1 isName
    subst nameText
    exact ⟨Text.splitFirst?_eq_none.1 noType, rfl⟩

/-- The signature of a field whose name has no colon is read back. -/
theorem parse_text {signature : FieldSignature} (noColon : ':' ∉ signature.name.text.toList) :
    parse signature.text = .ok signature := by
  obtain ⟨name, type⟩ := signature
  unfold parse
  cases type with
  | none =>
      have noType := Text.splitFirst?_eq_none.2 noColon
      simp only [text, noType]
      exact Checked.bind_eq_ok.2 ⟨name, FieldName.parse_eq_ok.2 rfl, rfl⟩
  | some type =>
      have found := Text.splitFirst?_append type.chars noColon
      simp only [toList_text_typed, found]
      refine Checked.bind_eq_ok.2 ⟨name, FieldName.parse_eq_ok.2 (by simp), ?_⟩
      exact Checked.bind_eq_ok.2 ⟨type, FieldType.parse_eq_ok.2 rfl, rfl⟩

/-- A text is read as the signature of a field whose name has no colon. -/
theorem parse_eq_ok {text : String} {signature : FieldSignature} :
    parse text = .ok signature ↔ ':' ∉ signature.name.text.toList ∧ signature.text = text := by
  constructor
  · exact plain_and_text_of_parse
  · rintro ⟨noColon, rfl⟩
    exact parse_text noColon

end FieldSignature

namespace MethodSignature

/-- The type of a method starts with a parenthesis. -/
theorem toList_text (signature : MethodSignature) :
    signature.text.toList = signature.name.text.toList ++ '(' :: signature.type.chars.tail := by
  simp [text, MethodType.descriptor, MethodType.chars]

/-- The name of a method that was read has no parenthesis, and its signature has the same text. -/
theorem plain_and_text_of_parse {text : String} {signature : MethodSignature}
    (success : parse text = .ok signature) :
    '(' ∉ signature.name.text.toList ∧ signature.text = text := by
  unfold parse at success
  split at success
  · rename_i name type found
    obtain ⟨whole, absent⟩ := Text.splitFirst?_eq_some found
    obtain ⟨methodName, isName, success⟩ := Checked.bind_eq_ok.1 success
    obtain ⟨methodType, isType, success⟩ := Checked.bind_eq_ok.1 success
    cases Checked.pure_eq_ok.1 success
    have nameText := MethodName.parse_eq_ok.1 isName
    have typeText := MethodType.parse_eq_ok.1 isType
    refine ⟨?_, ?_⟩
    · rw [nameText, String.toList_ofList]
      exact absent
    · apply String.toList_injective
      simp [MethodSignature.text, nameText, typeText, whole]
  · exact absurd success Checked.refuse_ne_ok

/-- The signature of a method whose name has no parenthesis is read back. -/
theorem parse_text {signature : MethodSignature} (noParen : '(' ∉ signature.name.text.toList) :
    parse signature.text = .ok signature := by
  have found := Text.splitFirst?_append signature.type.chars.tail noParen
  unfold parse
  simp only [toList_text, found]
  refine Checked.bind_eq_ok.2 ⟨signature.name, MethodName.parse_eq_ok.2 (by simp), ?_⟩
  exact Checked.bind_eq_ok.2 ⟨signature.type, MethodType.parse_eq_ok.2 rfl, rfl⟩

/-- A text is read as the signature of a method whose name has no parenthesis. -/
theorem parse_eq_ok {text : String} {signature : MethodSignature} :
    parse text = .ok signature ↔ '(' ∉ signature.name.text.toList ∧ signature.text = text := by
  constructor
  · exact plain_and_text_of_parse
  · rintro ⟨noParen, rfl⟩
    exact parse_text noParen

end MethodSignature

end MixinLink
