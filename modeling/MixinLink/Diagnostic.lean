import MixinLink.Annotation

/-!
# Diagnostics

Problems found in mixin classes. None of them stops the work on other declarations.

Main exports: `Diagnostic`, `Diagnostic.text`.
-/

namespace MixinLink

/-- A problem of a declaration. The member is given by its signature; a problem of the class itself
has none. -/
inductive Diagnostic where
  /-- An annotation could not be read or used. -/
  | malformedLinkage (className : ClassName) (member : Option String) (message : String)
  /-- A name without type means methods that are mapped to different names. -/
  | ambiguousOverload (className : ClassName) (member : Option String) (target : String) (span : Span)
      (candidates : List String)
  /-- The targets of a mixin give different results; the first one was used. -/
  | conflictingTargets (className : ClassName) (member : Option String) (chosen : String)
      (chosenTarget : ClassName) (other : String) (otherTarget : ClassName)
deriving DecidableEq

namespace Diagnostic

/-- The place of a problem in messages. -/
def place (className : ClassName) : Option String → String
  | some member => className.text ++ "." ++ member
  | none => className.text

/-- The message of a diagnostic. -/
def text : Diagnostic → String
  | malformedLinkage className member message =>
    "malformed linkage in " ++ place className member ++ ": " ++ message
  | ambiguousOverload className member target span candidates =>
    "ambiguous target " ++ Text.shown target ++ " at " ++ span.text ++ " in " ++ place className member
      ++ ", candidates: " ++ ", ".intercalate candidates
  | conflictingTargets className member chosen chosenTarget other otherTarget =>
    "conflicting targets for " ++ place className member ++ ": " ++ Text.shown chosen ++ " from "
      ++ chosenTarget.text ++ ", but " ++ Text.shown other ++ " from " ++ otherTarget.text

end Diagnostic

end MixinLink
