import MixinLink.Annotation

/-!
# Edits of annotations

Changes to the annotations of a source file, and to what it imports.

Main exports: `SourceEdit`.
-/

namespace MixinLink

/-- A change to the source code of a mixin. -/
inductive SourceEdit where
  /-- Put the text of an annotation right after the annotation at a place. -/
  | insertMark (after : Span) (text : String)
  /-- Remove the annotation at a place, which has the given complete name. -/
  | removeMark (span : Span) (mark : String)
  /-- Make sure that a class is imported. -/
  | addImport (className : String)
deriving Repr, DecidableEq

end MixinLink
