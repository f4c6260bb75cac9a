import MixinLink.Proofs.Descriptors

/-!
# The grammar of descriptors

`FieldType` and `MethodType` hold only what can stand in a descriptor. Here a type is first a bare term: any
text may stand for a class name, and an array may have any number of dimensions. Which terms are well
formed and how a term is written are said on their own, and reading a text gives a term exactly if it is
well formed and written as that text.

Main exports: `RawType`, `RawMethodType`, `FieldType.raw`, `MethodType.raw`, `descriptors_read_iff_written`.
-/

namespace MixinLink

/-! ## Terms -/

/-- A type that is no array, with any text as class name. -/
inductive RawBase where
  | primitive (type : Primitive)
  | object (text : String)
deriving DecidableEq

/-- A type, with any number of array dimensions. -/
inductive RawType where
  | plain (base : RawBase)
  | array (depth : Nat) (base : RawBase)
deriving DecidableEq

/-- The parameters and the result of a method, `none` if there is no result. -/
structure RawMethodType where
  parameters : List RawType
  result : Option RawType
deriving DecidableEq

namespace RawBase

/-- A class name has to be valid. -/
def WellFormed : RawBase → Prop
  | primitive _ => True
  | object text => isClassText text.toList = true

/-- The term as a text. -/
def written : RawBase → String
  | primitive type => String.singleton type.letter
  | object text => "L" ++ text ++ ";"

end RawBase

namespace RawType

/-- An array has between one and 255 dimensions. -/
def WellFormed : RawType → Prop
  | plain base => base.WellFormed
  | array depth base => 1 ≤ depth ∧ depth ≤ 255 ∧ base.WellFormed

/-- The term as a text. -/
def written : RawType → String
  | plain base => base.written
  | array depth base => String.ofList (List.replicate depth '[') ++ base.written

end RawType

namespace RawMethodType

/-- All types are well formed. -/
structure WellFormed (type : RawMethodType) : Prop where
  parameters : ∀ parameter ∈ type.parameters, parameter.WellFormed
  result : ∀ result ∈ type.result, result.WellFormed

/-- The term as a text. -/
def written (type : RawMethodType) : String :=
  "(" ++ String.join (type.parameters.map RawType.written) ++ ")" ++ (type.result.elim "V" RawType.written)

end RawMethodType

/-! ## The terms of types -/

/-- The term of a base type. -/
def BaseType.raw : BaseType → RawBase
  | primitive type => .primitive type
  | object name => .object name.text

/-- The term of a type: an array unless it has no dimensions. -/
def FieldType.raw (type : FieldType) : RawType :=
  if type.depth = 0 then .plain type.base.raw else .array type.depth type.base.raw

/-- The term of a method type. -/
def MethodType.raw (type : MethodType) : RawMethodType :=
  { parameters := type.parameters.map FieldType.raw, result := type.result.map FieldType.raw }

/-- Reading gives a term exactly if it is well formed and written as the text, once this is known of the
values behind the terms: a value is read from its own text only, and the terms of values are the well formed
ones. -/
theorem Checked.map_eq_ok_iff_written {α β : Type} {parse : String → Checked α} {descriptor : α → String}
    {raw : α → β} {WellFormed : β → Prop} {written : β → String}
    (parse_eq_ok : ∀ text value, parse text = .ok value ↔ descriptor value = text)
    (wellFormed_raw : ∀ value, WellFormed (raw value))
    (exists_of_wellFormed : ∀ term, WellFormed term → ∃ value, raw value = term)
    (written_raw : ∀ value, written (raw value) = descriptor value) {text : String} {term : β} :
    raw <$> parse text = .ok term ↔ WellFormed term ∧ written term = text := by
  rw [Checked.map_eq_ok]
  constructor
  · intro found
    obtain ⟨value, parsed, rfl⟩ := found
    exact ⟨wellFormed_raw value, (written_raw value).trans ((parse_eq_ok text value).1 parsed)⟩
  · intro grammatical
    obtain ⟨formed, isText⟩ := grammatical
    obtain ⟨value, rfl⟩ := exists_of_wellFormed term formed
    exact ⟨value, (parse_eq_ok text value).2 ((written_raw value).symm.trans isText), rfl⟩

namespace BaseType

private theorem wellFormed_raw (type : BaseType) : type.raw.WellFormed := by
  cases type with
  | primitive type => trivial
  | object name => exact name.valid

private theorem exists_of_wellFormed {term : RawBase} (formed : term.WellFormed) :
    ∃ type : BaseType, type.raw = term := by
  cases term with
  | primitive type => exact ⟨primitive type, rfl⟩
  | object text => exact ⟨object ⟨text, formed⟩, rfl⟩

private theorem toList_written_raw (type : BaseType) : type.raw.written.toList = type.chars := by
  cases type with
  | primitive type => simp [raw, RawBase.written, chars]
  | object name => simp [raw, RawBase.written, chars]

end BaseType

namespace FieldType

private theorem wellFormed_raw (type : FieldType) : type.raw.WellFormed := by
  have base := type.base.wellFormed_raw
  rw [raw]
  split
  · exact base
  · rename_i isArray
    exact ⟨Nat.one_le_iff_ne_zero.2 isArray, type.depth_le, base⟩

private theorem exists_of_wellFormed {term : RawType} (formed : term.WellFormed) :
    ∃ type : FieldType, type.raw = term := by
  cases term with
  | plain base =>
      obtain ⟨type, rfl⟩ := BaseType.exists_of_wellFormed formed
      exact ⟨⟨0, type, Nat.zero_le _⟩, rfl⟩
  | array depth base =>
      obtain ⟨positive, depth_le, formed⟩ := formed
      obtain ⟨type, rfl⟩ := BaseType.exists_of_wellFormed formed
      exact ⟨⟨depth, type, depth_le⟩, if_neg (Nat.one_le_iff_ne_zero.1 positive)⟩

private theorem toList_written_raw (type : FieldType) : type.raw.written.toList = type.chars := by
  rw [raw, chars, ← type.base.toList_written_raw]
  split
  · rename_i notArray
    rw [notArray]
    rfl
  · simp [RawType.written]

/-- The two ways of writing a type agree. -/
theorem written_raw (type : FieldType) : type.raw.written = type.descriptor := by
  rw [descriptor, ← type.toList_written_raw, String.ofList_toList]

private theorem parseDescriptor_eq_ok {text : String} {type : FieldType} :
    parseDescriptor text = .ok type ↔ type.descriptor = text :=
  Checked.within_eq_ok.symm.trans parse_eq_ok

private theorem parseDescriptor_raw {text : String} {term : RawType} :
    raw <$> parseDescriptor text = .ok term ↔ term.WellFormed ∧ term.written = text :=
  Checked.map_eq_ok_iff_written (fun _ _ => parseDescriptor_eq_ok) wellFormed_raw
    (fun _ => exists_of_wellFormed) written_raw

end FieldType

namespace MethodType

private theorem wellFormed_raw (type : MethodType) : type.raw.WellFormed where
  parameters := by
    intro parameter member
    obtain ⟨source, _, rfl⟩ := List.mem_map.1 member
    exact source.wellFormed_raw
  result := by
    intro result isResult
    obtain ⟨source, _, rfl⟩ := Option.map_eq_some_iff.1 isResult
    exact source.wellFormed_raw

private theorem exists_parameters {terms : List RawType} (formed : ∀ term ∈ terms, term.WellFormed) :
    ∃ types : List FieldType, types.map FieldType.raw = terms := by
  induction terms with
  | nil => exact ⟨[], rfl⟩
  | cons term terms ih =>
      obtain ⟨formedFirst, formedLater⟩ := List.forall_mem_cons.1 formed
      obtain ⟨type, rfl⟩ := FieldType.exists_of_wellFormed formedFirst
      obtain ⟨types, rfl⟩ := ih formedLater
      exact ⟨type :: types, rfl⟩

private theorem exists_of_wellFormed {term : RawMethodType} (formed : term.WellFormed) :
    ∃ type : MethodType, type.raw = term := by
  obtain ⟨parameters, result⟩ := term
  obtain ⟨types, rfl⟩ := exists_parameters formed.parameters
  cases result with
  | none => exact ⟨⟨types, none⟩, rfl⟩
  | some result =>
      obtain ⟨type, rfl⟩ := FieldType.exists_of_wellFormed (formed.result result rfl)
      exact ⟨⟨types, some type⟩, rfl⟩

private theorem toList_written_parameters (types : List FieldType) :
    (String.join ((types.map FieldType.raw).map RawType.written)).toList
      = types.flatMap FieldType.chars := by
  rw [String.toList_join, List.map_map, List.flatMap_map]
  simp only [Function.comp_apply, FieldType.toList_written_raw]

private theorem toList_written_result (result : Option FieldType) :
    ((result.map FieldType.raw).elim "V" RawType.written).toList = resultChars result := by
  cases result with
  | none => rfl
  | some type => exact type.toList_written_raw

/-- The two ways of writing a method type agree. -/
theorem written_raw (type : MethodType) : type.raw.written = type.descriptor := by
  have whole : type.raw.written.toList = type.chars := by
    simp only [RawMethodType.written, raw, String.toList_append, toList_written_parameters,
      toList_written_result]
    simp [chars]
  rw [descriptor, ← whole, String.ofList_toList]

private theorem parseDescriptor_eq_ok {text : String} {type : MethodType} :
    parseDescriptor text = .ok type ↔ type.descriptor = text :=
  Checked.within_eq_ok.symm.trans parse_eq_ok

private theorem parseDescriptor_raw {text : String} {term : RawMethodType} :
    raw <$> parseDescriptor text = .ok term ↔ term.WellFormed ∧ term.written = text :=
  Checked.map_eq_ok_iff_written (fun _ _ => parseDescriptor_eq_ok) wellFormed_raw
    (fun _ => exists_of_wellFormed) written_raw

end MethodType

/-- A text is read as a term exactly if the term is well formed and written as that text, for fields and for
methods; and the terms of types are written as the types are. -/
theorem descriptors_read_iff_written (text : String) :
    (∀ term : RawType,
        FieldType.raw <$> FieldType.parseDescriptor text = .ok term ↔ term.WellFormed ∧ term.written = text)
      ∧ (∀ term : RawMethodType,
        MethodType.raw <$> MethodType.parseDescriptor text = .ok term
          ↔ term.WellFormed ∧ term.written = text)
      ∧ (∀ type : FieldType, type.raw.written = type.descriptor)
      ∧ ∀ type : MethodType, type.raw.written = type.descriptor :=
  ⟨fun _ => FieldType.parseDescriptor_raw, fun _ => MethodType.parseDescriptor_raw, FieldType.written_raw,
    MethodType.written_raw⟩

end MixinLink
