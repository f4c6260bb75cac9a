import MixinLink.Text.Shown
import MixinLink.Text.Split

/-!
# Lines of mapping text

A line of mapping text is indented by tabs and divided into fields by tabs. The first field says what
the line is about; the others are consumed from left to right while the line is read.

Main exports: `Tiny.Line`, `Tiny.Line.ofText`, `Tiny.textLines`, `Tiny.byteLines`.
-/

namespace MixinLink.Tiny

/-- A line of mapping text, with the fields that are still to be read. -/
structure Line where
  /-- The position in the text, counted from one. -/
  number : Nat
  /-- The number of leading tabs. -/
  indent : Nat
  /-- The first field. -/
  head : String
  /-- The fields after the first one that were not consumed yet. -/
  rest : List String
deriving Repr, DecidableEq

namespace Line

/-- The number of leading tabs, and the text after them. -/
def dropTabs : List Char → Nat × List Char
  | '\t' :: text =>
    let inner := dropTabs text
    (inner.1 + 1, inner.2)
  | text => (0, text)

/-- Divides a text into indentation and fields. -/
def ofText (number : Nat) (text : String) : Line :=
  let body := dropTabs text.toList
  let fields := (Text.segments '\t' body.2).map String.ofList
  { number, indent := body.1, head := fields.headD "", rest := fields.tail }

/-- The line as messages show it, with the fields not consumed yet. -/
def shown (line : Line) : String :=
  "TinyLine \x7b line_number: " ++ toString line.number ++ ", indent: " ++ toString line.indent
    ++ ", first_field: " ++ Text.shown line.head
    ++ ", fields: IntoIter(" ++ Text.shownList line.rest ++ ") \x7d"

end Line

/-- Removes a carriage return at the end of a line. -/
def dropReturn (line : List Char) : List Char :=
  match Text.splitLast? '\r' line with
  | some (before, []) => before
  | _ => line

/-- The lines of a text. A line ends with a line feed, or a carriage return and a line feed; after the
last line feed there is a line only if some text follows. -/
def textLines (text : List Char) : List (List Char) :=
  let pieces := Text.segments '\n' text
  let last := pieces.getLastD []
  pieces.dropLast.map dropReturn ++ (if last.isEmpty then [] else [last])

/-- Cuts bytes at every line feed, like `Text.segments` does with characters. -/
def byteSegments : List UInt8 → List (List UInt8)
  | [] => [[]]
  | b :: rest =>
    if b = 10 then [] :: byteSegments rest
    else
      match byteSegments rest with
      | [] => [[b]]
      | piece :: pieces => (b :: piece) :: pieces

/-- Reads bytes as a line of text, `none` if they are no UTF-8. -/
def decodeLine (bytes : List UInt8) : Option String :=
  String.fromUTF8? ⟨bytes.toArray⟩

/-- The lines of a text given by its bytes. A line whose bytes are no UTF-8 is `none`. -/
def byteLines (bytes : List UInt8) : List (Option String) :=
  let pieces := byteSegments bytes
  let last := pieces.getLastD []
  pieces.dropLast.map (fun line => (decodeLine line).map fun text => String.ofList (dropReturn text.toList))
    ++ (if last.isEmpty then [] else [decodeLine last])

end MixinLink.Tiny
