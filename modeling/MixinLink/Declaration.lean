import MixinLink.Annotation
import MixinLink.Signature

/-!
# Declarations

The classes declared in a source file with their fields, methods and nested classes, and the
annotations on all of them. All names are obfuscated names, as the source uses them.

Main exports: `SourceUnit`, `ClassDecl`, `FieldDecl`, `MethodDecl`, `ClassDecl.walk`,
`findAnnotation?`.
-/

namespace MixinLink

/-- A field declaration. -/
structure FieldDecl where
  name : FieldName
  type : FieldType
  annotations : List Annotation

/-- A method declaration. -/
structure MethodDecl where
  name : MethodName
  type : MethodType
  isStatic : Bool
  annotations : List Annotation

/-- A class declaration. The nested classes include anonymous and local ones. -/
inductive ClassDecl where
  | mk (name : ClassName) (annotations : List Annotation) (fields : List FieldDecl)
      (methods : List MethodDecl) (inner : List ClassDecl)

/-- A source file. -/
structure SourceUnit where
  path : String
  classes : List ClassDecl

/-- The first annotation with a name. -/
def findAnnotation? (annotations : List Annotation) (name : String) : Option Annotation :=
  annotations.find? (·.name = name)

/-- The signature of a declared field. -/
def FieldDecl.signature (field : FieldDecl) : FieldSignature :=
  ⟨field.name, some field.type⟩

/-- The signature of a declared method. -/
def MethodDecl.signature (method : MethodDecl) : MethodSignature :=
  ⟨method.name, method.type⟩

namespace ClassDecl

/-- The name of the class. -/
def name : ClassDecl → ClassName
  | mk name _ _ _ _ => name

/-- The annotations of the class. -/
def annotations : ClassDecl → List Annotation
  | mk _ annotations _ _ _ => annotations

/-- The fields of the class. -/
def fields : ClassDecl → List FieldDecl
  | mk _ _ fields _ _ => fields

/-- The methods of the class. -/
def methods : ClassDecl → List MethodDecl
  | mk _ _ _ methods _ => methods

/-- The classes nested in the class. -/
def inner : ClassDecl → List ClassDecl
  | mk _ _ _ _ inner => inner

mutual

/-- A class, and then the classes nested in it, depth first. -/
def walk : ClassDecl → List ClassDecl
  | mk name annotations fields methods inner =>
    mk name annotations fields methods inner :: walkAll inner

/-- Several classes with the classes nested in them, depth first. -/
def walkAll : List ClassDecl → List ClassDecl
  | [] => []
  | decl :: rest => decl.walk ++ walkAll rest

end

end ClassDecl

/-- All classes of a source file, each followed by the ones nested in it. -/
def SourceUnit.walk (unit : SourceUnit) : List ClassDecl :=
  ClassDecl.walkAll unit.classes

end MixinLink
