import MixinLink.Tiny.Reader

/-!
# Rows of mapping text

A row is a line of mapping text by its indentation and its fields. A text made of rows has them as its
lines, with the fields as they were, as long as no field has a tab or a line feed. Only the last field
of a row can lose something: a carriage return at its end belongs to the end of the line.

Main exports: `Tiny.withoutReturn`, `Tiny.Row`, `Tiny.Row.text`, `Tiny.Row.seen`, `Tiny.readText_rows`.
-/

namespace MixinLink.Tiny

/-! ## Carriage returns at the end -/

private theorem dropReturn_eq (line : List Char) :
    dropReturn line = if line.getLast? = some '\r' then line.dropLast else line := by
  unfold dropReturn
  cases found : Text.splitLast? '\r' line with
  | none =>
      have absent := Text.splitLast?_eq_none.1 found
      have other : line.getLast? ≠ some '\r' := fun last => absent (List.mem_of_getLast? last)
      simp [other]
  | some parts =>
      obtain ⟨before, after⟩ := parts
      obtain ⟨whole, absent⟩ := Text.splitLast?_eq_some found
      cases after with
      | nil => simp [whole]
      | cons c rest =>
          have other : line.getLast? ≠ some '\r' := by
            intro last
            rw [whole, List.getLast?_append, List.getLast?_cons_cons,
              List.getLast?_eq_some_getLast (List.cons_ne_nil c rest), Option.some_or] at last
            exact absent (Option.some.inj last ▸ List.getLast_mem _)
          simp [other]

private theorem dropReturn_of_not_mem {line : List Char} (absent : '\r' ∉ line) :
    dropReturn line = line := by
  rw [dropReturn_eq, if_neg fun last => absent (List.mem_of_getLast? last)]

/-- What stands before another character stays. -/
theorem dropReturn_append_cons {c : Char} (other : c ≠ '\r') (before after : List Char) :
    dropReturn (before ++ c :: after) = before ++ c :: dropReturn after := by
  rw [dropReturn_eq, dropReturn_eq]
  cases after with
  | nil => simp [other]
  | cons d rest =>
      have same : (before ++ c :: d :: rest).getLast? = (d :: rest).getLast? := by
        simp [List.getLast?_append, List.getLast?_cons]
      rw [same]
      split
      · rw [List.dropLast_append_cons, List.dropLast_cons_of_ne_nil (List.cons_ne_nil d rest)]
      · rfl

/-- Without its return a line has no other characters. -/
theorem mem_of_mem_dropReturn {c : Char} {line : List Char} (member : c ∈ dropReturn line) : c ∈ line := by
  rw [dropReturn_eq] at member
  split at member
  · exact List.dropLast_subset _ member
  · exact member

/-- A text without the carriage return at its end, if it has one. -/
def withoutReturn (text : String) : String :=
  String.ofList (dropReturn text.toList)

/-- A text without returns is left as it is. -/
theorem withoutReturn_of_not_mem {text : String} (absent : '\r' ∉ text.toList) :
    withoutReturn text = text := by
  rw [withoutReturn, dropReturn_of_not_mem absent, String.ofList_toList]

/-- Without its return a text has no other characters. -/
theorem mem_of_mem_withoutReturn {c : Char} {text : String} (member : c ∈ (withoutReturn text).toList) :
    c ∈ text.toList := by
  rw [withoutReturn, String.toList_ofList] at member
  exact mem_of_mem_dropReturn member

/-! ## Rows -/

/-- A line by its indentation, its first field and the others. -/
structure Row where
  indent : Nat
  head : String
  rest : List String

namespace Row

/-- Everything after the indentation. -/
def body (row : Row) : List Char :=
  row.head.toList ++ row.rest.flatMap fun field => '\t' :: field.toList

/-- The characters of the line. -/
def chars (row : Row) : List Char :=
  List.replicate row.indent '\t' ++ row.body

/-- The line with its end. -/
def text (row : Row) : String :=
  String.ofList (row.chars ++ ['\n'])

/-- The line as the reader has it. -/
def line (row : Row) (number : Nat) : Line :=
  ⟨number, row.indent, row.head, row.rest⟩

/-- The row as it is read: the last field loses a carriage return. -/
def seen (row : Row) : Row :=
  { row with rest := row.rest.dropLast ++ (row.rest.getLast?.map withoutReturn).toList }

/-- The fields are told apart by the tabs between them, and are on one line. -/
structure Plain (row : Row) : Prop where
  head_ne : row.head ≠ ""
  rest_ne : row.rest ≠ []
  head : '\t' ∉ row.head.toList ∧ '\n' ∉ row.head.toList
  rest : ∀ field ∈ row.rest, '\t' ∉ field.toList ∧ '\n' ∉ field.toList

variable {row : Row}

private theorem newline_not_mem_chars (plain : row.Plain) : '\n' ∉ row.chars := by
  simp only [chars, body, List.mem_append, List.mem_flatMap, List.mem_cons, not_or]
  refine ⟨?_, plain.head.2, ?_⟩
  · intro member
    exact absurd (List.eq_of_mem_replicate member) (by decide)
  · rintro ⟨field, isField, newline | inside⟩
    · exact absurd newline (by decide)
    · exact (plain.rest field isField).2 inside

private theorem dropReturn_chars (rest_ne : row.rest ≠ []) : dropReturn row.chars = row.seen.chars := by
  obtain ⟨indent, head, rest⟩ := row
  obtain ⟨fields, last, rfl⟩ : ∃ fields last, rest = fields ++ [last] :=
    ⟨_, _, (List.dropLast_concat_getLast rest_ne).symm⟩
  have split : (Row.mk indent head (fields ++ [last])).chars
      = (List.replicate indent '\t' ++ head.toList ++ fields.flatMap fun field => '\t' :: field.toList)
        ++ '\t' :: last.toList := by
    simp [chars, body]
  rw [split, dropReturn_append_cons (by decide)]
  simp [chars, body, seen, withoutReturn]

private theorem seen_plain (plain : row.Plain) : row.seen.Plain where
  head_ne := plain.head_ne
  rest_ne := by simp [seen, List.getLast?_eq_some_getLast plain.rest_ne]
  head := plain.head
  rest field member := by
    rw [seen, List.getLast?_eq_some_getLast plain.rest_ne] at member
    rcases List.mem_append.1 member with earlier | last
    · exact plain.rest field (List.dropLast_subset _ earlier)
    · simp only [Option.map_some, Option.toList_some, List.mem_singleton] at last
      have lastPlain := plain.rest _ (List.getLast_mem plain.rest_ne)
      rw [last]
      exact ⟨fun tab => lastPlain.1 (mem_of_mem_withoutReturn tab),
        fun newline => lastPlain.2 (mem_of_mem_withoutReturn newline)⟩

end Row

/-! ## Rows and lines -/

private theorem dropTabs_replicate (count : Nat) {text : List Char} (plain : text.head? ≠ some '\t') :
    Line.dropTabs (List.replicate count '\t' ++ text) = (count, text) := by
  induction count with
  | zero =>
      cases text with
      | nil => rfl
      | cons c rest =>
          have other : c ≠ '\t' := fun tab => plain (by rw [tab, List.head?_cons])
          simp [Line.dropTabs, other]
  | succ count ih => simp [List.replicate_succ, Line.dropTabs, ih]

private theorem segments_body {first : List Char} {fields : List String} (firstPlain : '\t' ∉ first)
    (plain : ∀ field ∈ fields, '\t' ∉ field.toList) :
    Text.segments '\t' (first ++ fields.flatMap fun field => '\t' :: field.toList)
      = first :: fields.map String.toList := by
  induction fields generalizing first with
  | nil => simp [Text.segments_of_not_mem firstPlain]
  | cons field fields ih =>
      obtain ⟨fieldPlain, others⟩ := List.forall_mem_cons.1 plain
      rw [List.flatMap_cons, List.cons_append, Text.segments_append,
        Text.segments_of_not_mem firstPlain, ih fieldPlain others]
      rfl

/-- A row is read with its own fields. -/
theorem Row.ofText_chars {row : Row} (plain : row.Plain) (number : Nat) :
    Line.ofText number (String.ofList row.chars) = row.line number := by
  have noTab : row.body.head? ≠ some '\t' := by
    cases letters : row.head.toList with
    | nil => exact absurd (String.toList_eq_nil_iff.1 letters) plain.head_ne
    | cons c rest =>
        have other : c ≠ '\t' := by
          rintro rfl
          exact plain.head.1 (letters ▸ List.mem_cons_self)
        simp [body, letters, other]
  have fields := segments_body plain.head.1 fun field member => (plain.rest field member).1
  simp only [Line.ofText, String.toList_ofList, chars, dropTabs_replicate _ noTab]
  rw [body, fields]
  simp [line, Function.comp_def]

/-- Rows on consecutive lines. -/
def numbered (number : Nat) : List Row → List (Option Line)
  | [] => []
  | row :: rows => some (row.line number) :: numbered (number + 1) rows

/-- Rows are counted on. -/
theorem numbered_append (number : Nat) (rows more : List Row) :
    numbered number (rows ++ more) = numbered number rows ++ numbered (number + rows.length) more := by
  induction rows generalizing number with
  | nil => simp [numbered]
  | cons row rows ih =>
      rw [List.cons_append, numbered, numbered, ih, List.cons_append, List.length_cons,
        Nat.add_assoc, Nat.add_comm 1]

private theorem textLines_rows {rows : List Row} (plain : ∀ row ∈ rows, row.Plain) :
    textLines (rows.flatMap fun row => row.chars ++ ['\n']) = rows.map fun row => dropReturn row.chars := by
  have pieces : Text.segments '\n' (rows.flatMap fun row => row.chars ++ ['\n'])
      = rows.map Row.chars ++ [[]] := by
    induction rows with
    | nil => rfl
    | cons row rows ih =>
        obtain ⟨rowPlain, others⟩ := List.forall_mem_cons.1 plain
        rw [List.flatMap_cons, List.append_assoc, List.singleton_append, Text.segments_append,
          Text.segments_of_not_mem (Row.newline_not_mem_chars rowPlain), ih others]
        rfl
  simp [textLines, pieces]

private theorem numberLines_rows {rows : List Row} (plain : ∀ row ∈ rows, row.Plain) (number : Nat) :
    numberLines number (rows.map fun row => some (String.ofList (dropReturn row.chars)))
      = numbered number (rows.map Row.seen) := by
  induction rows generalizing number with
  | nil => rfl
  | cons row rows ih =>
      obtain ⟨rowPlain, others⟩ := List.forall_mem_cons.1 plain
      rw [List.map_cons, numberLines, ih others, Option.map_some, Row.dropReturn_chars rowPlain.rest_ne,
        Row.ofText_chars (Row.seen_plain rowPlain)]
      rfl

/-- A text made of rows is read row by row. -/
theorem readText_rows {rows : List Row} (plain : ∀ row ∈ rows, row.Plain) :
    readText (String.join (rows.map Row.text)) = read (numbered 1 (rows.map Row.seen)) := by
  have chars : (String.join (rows.map Row.text)).toList
      = rows.flatMap fun row => row.chars ++ ['\n'] := by
    simp [String.toList_join, List.flatMap_map, Row.text]
  rw [readText, chars, textLines_rows plain, List.map_map]
  exact congrArg read (numberLines_rows plain 1)

end MixinLink.Tiny
