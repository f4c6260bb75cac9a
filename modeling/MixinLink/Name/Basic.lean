import MixinLink.Failure
import MixinLink.Text.Split

/-!
# Names of classes, fields and methods

A simple name has at least one character and none of `.`, `;`, `[` and `/`. A class name is made of
simple names with `/` between them; everything before the last of them is the package. A field name is
a simple name. A method name is `<init>`, `<clinit>`, or a simple name without `<` and `>`.

Names carry the proof that their text is of the right form, so that whatever holds a name holds a
valid one.

Main exports: `SimpleName`, `ClassName`, `FieldName`, `MethodName`, and a `parse` for each of the last
three.
-/

namespace MixinLink

/-- A character that may stand in a simple name. -/
def isNameChar (c : Char) : Bool :=
  c ≠ '.' && c ≠ ';' && c ≠ '[' && c ≠ '/'

/-- At least one character, all of them name characters. -/
def isSimpleText (text : List Char) : Bool :=
  !text.isEmpty && text.all isNameChar

/-- Simple texts with `/` between them. -/
def isClassText (text : List Char) : Bool :=
  (Text.segments '/' text).all isSimpleText

/-- A character that may stand in the name of an ordinary method. -/
def isMethodChar (c : Char) : Bool :=
  isNameChar c && c ≠ '<' && c ≠ '>'

/-- The name of instance creation, the name of class set-up, or the name of an ordinary method. -/
def isMethodText (text : List Char) : Bool :=
  text = "<init>".toList || text = "<clinit>".toList || (!text.isEmpty && text.all isMethodChar)

/-- A name without structure. -/
structure SimpleName where
  text : String
  valid : isSimpleText text.toList = true
deriving DecidableEq

/-- The full name of a class, with `/` between the parts. -/
structure ClassName where
  text : String
  valid : isClassText text.toList = true
deriving DecidableEq

/-- The name of a field. -/
structure FieldName where
  text : String
  valid : isSimpleText text.toList = true
deriving DecidableEq

/-- The name of a method. -/
structure MethodName where
  text : String
  valid : isMethodText text.toList = true
deriving DecidableEq

instance : ToString SimpleName := ⟨SimpleName.text⟩
instance : ToString ClassName := ⟨ClassName.text⟩
instance : ToString FieldName := ⟨FieldName.text⟩
instance : ToString MethodName := ⟨MethodName.text⟩

/-- A text of one part is not empty and has no reserved characters. -/
theorem isSimpleText_iff {text : List Char} :
    isSimpleText text = true ↔ text ≠ [] ∧ ∀ c ∈ text, isNameChar c = true := by
  simp [isSimpleText]

/-- A text of one part has no slash. -/
theorem slash_not_mem_of_isSimpleText {text : List Char} (simple : isSimpleText text = true) :
    '/' ∉ text := by
  intro slash
  exact absurd ((isSimpleText_iff.1 simple).2 '/' slash) (by decide)

/-- Class names with the same text are the same. -/
theorem ClassName.ext_text {a b : ClassName} (same : a.text = b.text) : a = b := by
  cases a; cases b; cases same; rfl

/-- Field names with the same text are the same. -/
theorem FieldName.ext_text {a b : FieldName} (same : a.text = b.text) : a = b := by
  cases a; cases b; cases same; rfl

/-- Method names with the same text are the same. -/
theorem MethodName.ext_text {a b : MethodName} (same : a.text = b.text) : a = b := by
  cases a; cases b; cases same; rfl

namespace ClassName

/-- What is wrong with a text that should be a class name, if anything. -/
def check (text : String) : Checked Unit :=
  if isClassText text.toList then .ok () else Checked.refuse .invalidClassName

/-- Reads a class name. -/
def parse (text : String) : Checked ClassName :=
  if valid : isClassText text.toList = true then .ok ⟨text, valid⟩
  else .error ⟨[.onValue text], .invalidClassName⟩

/-- A text is read as the class name that has this text. -/
theorem parse_eq_ok {text : String} {name : ClassName} : parse text = .ok name ↔ name.text = text := by
  unfold parse
  split
  · constructor
    · rintro ⟨⟩
      rfl
    · rintro rfl
      rfl
  · rename_i invalid
    constructor
    · intro success
      cases success
    · intro same
      exact absurd (same ▸ name.valid) invalid

/-- Reads a class name that may be written with dots in place of slashes. -/
def parseDotted (text : String) : Checked ClassName :=
  parse (String.ofList (Text.replaceChar '.' '/' text.toList))

/-- The name written with dots in place of slashes. -/
def dotted (name : ClassName) : String :=
  String.ofList (Text.replaceChar '/' '.' name.text.toList)

/-- The order of class names: by their characters. -/
def precedes (a b : ClassName) : Bool :=
  a.text ≤ b.text

/-- The class that every other class extends. -/
def object : ClassName :=
  ⟨"java/lang/Object", by decide +kernel⟩

end ClassName

namespace FieldName

/-- What is wrong with a text that should be a field name, if anything. -/
def check (text : String) : Checked Unit :=
  if isSimpleText text.toList then .ok () else Checked.refuse .invalidFieldName

/-- Reads a field name. -/
def parse (text : String) : Checked FieldName :=
  if valid : isSimpleText text.toList = true then .ok ⟨text, valid⟩
  else .error ⟨[.onValue text], .invalidFieldName⟩

/-- A text is read as the field name that has this text. -/
theorem parse_eq_ok {text : String} {name : FieldName} : parse text = .ok name ↔ name.text = text := by
  unfold parse
  split
  · constructor
    · rintro ⟨⟩
      rfl
    · rintro rfl
      rfl
  · rename_i invalid
    constructor
    · intro success
      cases success
    · intro same
      exact absurd (same ▸ name.valid) invalid

end FieldName

namespace MethodName

/-- What is wrong with a text that should be a method name, if anything. -/
def check (text : String) : Checked Unit :=
  if isMethodText text.toList then .ok () else Checked.refuse .invalidMethodName

/-- Reads a method name. -/
def parse (text : String) : Checked MethodName :=
  if valid : isMethodText text.toList = true then .ok ⟨text, valid⟩
  else .error ⟨[.onValue text], .invalidMethodName⟩

/-- A text is read as the method name that has this text. -/
theorem parse_eq_ok {text : String} {name : MethodName} : parse text = .ok name ↔ name.text = text := by
  unfold parse
  split
  · constructor
    · rintro ⟨⟩
      rfl
    · rintro rfl
      rfl
  · rename_i invalid
    constructor
    · intro success
      cases success
    · intro same
      exact absurd (same ▸ name.valid) invalid

/-- The names of instance creation and class set-up. -/
def isSpecial (name : MethodName) : Bool :=
  name.text = "<init>" || name.text = "<clinit>"

end MethodName

end MixinLink
