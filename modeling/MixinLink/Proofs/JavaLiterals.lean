import MixinLink.LiteralEdit

/-!
# String literals of Java source code

Java source is read in two steps. First every unicode escape is translated into the code unit it
stands for; a backslash can only start one if an even number of backslashes stands directly before it.
A string literal is then read from the result, with its own escapes. Both steps are written down here
and put against the literals that are written: each is read as one literal with the value it was
written for.

Main exports: `JavaSource.codeUnits`, `JavaSource.translate`, `JavaSource.readLiteral`, `JavaSource.Spells`,
`JavaSource.StandsFor`, `javaLiteral_reads_back`.
-/

namespace MixinLink

namespace JavaSource

/-! ## Code units -/

/-- The code unit of a character that has only one. -/
def unit (c : Char) : UInt16 :=
  c.toNat.toUInt16

/-- A character in UTF-16: a single code unit, or two surrogates. -/
def charUnits (c : Char) : List UInt16 :=
  if c.toNat < 0x10000 then
    [unit c]
  else
    [(0xD800 + (c.toNat - 0x10000) / 0x400).toUInt16, (0xDC00 + (c.toNat - 0x10000) % 0x400).toUInt16]

/-- A text in UTF-16. -/
def codeUnits (text : List Char) : List UInt16 :=
  text.flatMap charUnits

/-! ## Unicode escapes -/

/-- The value of a hexadecimal digit. -/
def hexValue? (digit : UInt16) : Option Nat :=
  if unit '0' ≤ digit ∧ digit ≤ unit '9' then some (digit.toNat - '0'.toNat)
  else if unit 'a' ≤ digit ∧ digit ≤ unit 'f' then some (digit.toNat - 'a'.toNat + 10)
  else if unit 'A' ≤ digit ∧ digit ≤ unit 'F' then some (digit.toNat - 'A'.toNat + 10)
  else none

/-- The number that hexadecimal digits stand for, after what the digits before them stand for. -/
def hexNumber? (before : Nat) : List UInt16 → Option Nat
  | [] => some before
  | digit :: rest => (hexValue? digit).bind fun value => hexNumber? (16 * before + value) rest

/-- The code unit of a unicode escape, and what follows it. The text is what stands after the backslash:
one `u` or more, and then four hexadecimal digits. -/
def readEscape? (text : List UInt16) : Option (UInt16 × List UInt16) :=
  match text.dropWhile (· = unit 'u') with
  | a :: b :: c :: d :: rest => (hexNumber? 0 [a, b, c, d]).map fun number => (number.toUInt16, rest)
  | _ => none

private theorem length_readEscape? {text rest : List UInt16} {value : UInt16}
    (read : readEscape? text = some (value, rest)) : rest.length < text.length := by
  have shorter : (text.dropWhile (· = unit 'u')).length ≤ text.length := by
    exact (List.dropWhile_sublist _).length_le
  unfold readEscape? at read
  split at read
  · rename_i a b c d after digits
    obtain ⟨number, _, same⟩ := Option.map_eq_some_iff.1 read
    cases same
    simp only [digits, List.length_cons] at shorter
    omega
  · cases read

/-- Translates the unicode escapes of a source text. A backslash only starts one if an even number of
backslashes stands directly before it, which is told of the first place. An escape that is started and has
no four digits is refused. -/
def translate (even : Bool) (source : List UInt16) : Option (List UInt16) :=
  match source with
  | [] => some []
  | u :: rest =>
    if u = unit '\\' then
      if even ∧ rest.head? = some (unit 'u') then
        match _escape : readEscape? rest with
        | some (value, after) => (translate true after).map (value :: ·)
        | none => none
      else
        (translate (!even) rest).map (u :: ·)
    else
      (translate true rest).map (u :: ·)
termination_by source.length
decreasing_by
  · have shorter := length_readEscape? _escape
    simp only [List.length_cons]
    omega
  · simp
  · simp

/-! ## String literals -/

/-- The letters that follow a backslash in a string literal, with the characters they stand for. -/
def escapes : List (Char × Char) :=
  [('b', '\x08'), ('t', '\t'), ('n', '\n'), ('f', '\x0c'), ('r', '\r'), ('"', '"'), ('\\', '\\')]

/-- What a letter after a backslash stands for. -/
def escapeValue? (letter : UInt16) : Option UInt16 :=
  (escapes.find? fun escape => unit escape.1 = letter).map fun escape => unit escape.2

/-- Reads a string literal after its first quote: its value, and what follows its last quote. There is no
line terminator in a string literal. -/
def readBody : List UInt16 → Option (List UInt16 × List UInt16)
  | [] => none
  | u :: rest =>
    if u = unit '"' then some ([], rest)
    else if u = unit '\\' then
      match rest with
      | [] => none
      | letter :: after =>
        (escapeValue? letter).bind fun value =>
          (readBody after).map fun read => (value :: read.1, read.2)
    else if u = unit '\n' ∨ u = unit '\r' then none
    else (readBody rest).map fun read => (u :: read.1, read.2)

/-- Reads a string literal at the beginning of a source text: its value, and what follows it. -/
def readLiteral (source : List UInt16) : Option (List UInt16 × List UInt16) :=
  (translate true source).bind fun text =>
    match text with
    | [] => none
    | u :: rest => if u = unit '"' then readBody rest else none

/-! ## Which code units belong to which characters -/

/-- What the code units of a character tell: its code if there is one, which is no surrogate, or the two
halves of its code. -/
inductive Encodes (c : Char) : List UInt16 → Prop where
  | single {u : UInt16} (code : u.toNat = c.toNat) (noSurrogate : c.toNat < 0xD800 ∨ 0xDFFF < c.toNat) :
      Encodes c [u]
  | double {high low : UInt16} (upper : high.toNat = 0xD800 + (c.toNat - 0x10000) / 0x400)
      (lower : low.toNat = 0xDC00 + (c.toNat - 0x10000) % 0x400) (wide : 0x10000 ≤ c.toNat)
      (isCode : c.toNat < 0x110000) : Encodes c [high, low]

private theorem encodes_charUnits (c : Char) : Encodes c (charUnits c) := by
  have range : c.toNat < 0xD800 ∨ (0xDFFF < c.toNat ∧ c.toNat < 0x110000) := by
    simpa [UInt32.isValidChar, Nat.isValidChar] using c.valid
  unfold charUnits
  split
  · rename_i single
    apply Encodes.single
    · simpa [unit] using single
    · omega
  · rename_i double
    apply Encodes.double
    · simp only [Nat.toUInt16_eq, UInt16.toNat_ofNat']
      omega
    · simp only [Nat.toUInt16_eq, UInt16.toNat_ofNat']
      omega
    · omega
    · omega

/-- A code unit below the surrogates tells its character. -/
theorem eq_of_mem_charUnits {c d : Char} (below : d.toNat < 0xD800) (member : unit d ∈ charUnits c) :
    c = d := by
  have isUnit : (unit d).toNat = d.toNat := by
    simp only [unit, Nat.toUInt16_eq, UInt16.toNat_ofNat']
    omega
  have encodes := encodes_charUnits c
  generalize charUnits c = units at member encodes
  cases encodes with
  | single code noSurrogate =>
      rw [← List.mem_singleton.1 member, isUnit] at code
      exact Char.toNat_inj.1 code.symm
  | double upper lower wide isCode =>
      rcases List.mem_cons.1 member with first | second
      · rw [← first, isUnit] at upper
        omega
      · rw [← List.mem_singleton.1 second, isUnit] at lower
        omega

/-- Characters of which the first code units are the same are the same. -/
theorem charUnits_append_inj {c d : Char} {more others : List UInt16}
    (same : charUnits c ++ more = charUnits d ++ others) : c = d ∧ more = others := by
  have ofC := encodes_charUnits c
  have ofD := encodes_charUnits d
  generalize charUnits c = unitsC at same ofC
  generalize charUnits d = unitsD at same ofD
  cases ofC with
  | single codeC plainC =>
      cases ofD with
      | single codeD plainD =>
          obtain ⟨rfl, rest⟩ := List.cons.inj same
          exact ⟨Char.toNat_inj.1 (codeC.symm.trans codeD), rest⟩
      | double upperD lowerD wideD isCodeD =>
          obtain ⟨rfl, _⟩ := List.cons.inj same
          omega
  | double upperC lowerC wideC isCodeC =>
      cases ofD with
      | single codeD plainD =>
          obtain ⟨rfl, _⟩ := List.cons.inj same
          omega
      | double upperD lowerD wideD isCodeD =>
          obtain ⟨rfl, tails⟩ := List.cons.inj same
          obtain ⟨rfl, rest⟩ := List.cons.inj tails
          exact ⟨Char.toNat_inj.1 (by omega), rest⟩

private theorem codeUnits_injective {text other : List Char} (same : codeUnits text = codeUnits other) :
    text = other := by
  have nonempty : ∀ c, charUnits c ≠ [] := by
    intro c
    unfold charUnits
    split <;> simp
  induction text generalizing other with
  | nil =>
      cases other with
      | nil => rfl
      | cons d others => simp [codeUnits, nonempty] at same
  | cons c rest ih =>
      cases other with
      | nil => simp [codeUnits, nonempty] at same
      | cons d others =>
          simp only [codeUnits, List.flatMap_cons] at same
          obtain ⟨rfl, sameRest⟩ := charUnits_append_inj same
          rw [ih sameRest]

/-! ## How characters are written -/

/-- The characters that cannot stand for themselves in a string literal. -/
def reserved : List Char :=
  ['"', '\\', '\n', '\r']

/-- How a character is written in a string literal. -/
inductive Spells (c : Char) : List Char → Prop where
  | letter {l : Char} (escape : (l, c) ∈ escapes) : Spells c ['\\', l]
  | code (free : c ∉ reserved) (control : Text.isControl c = true) :
      Spells c ('\\' :: 'u' :: fourHexDigits c.toNat)
  | plain (free : c ∉ reserved) (visible : Text.isControl c = false) : Spells c [c]

private theorem spells_javaChar (c : Char) : Spells c (javaChar c) := by
  fun_cases javaChar c with
  | case1 quote => exact .letter (by simp [escapes, quote])
  | case2 _ backslash => exact .letter (by simp [escapes, backslash])
  | case3 _ _ lineFeed => exact .letter (by simp [escapes, lineFeed])
  | case4 _ _ _ carriageReturn => exact .letter (by simp [escapes, carriageReturn])
  | case5 _ _ _ _ tab => exact .letter (by simp [escapes, tab])
  | case6 _ _ _ _ _ backspace => exact .letter (by simp [escapes, backspace])
  | case7 _ _ _ _ _ _ formFeed => exact .letter (by simp [escapes, formFeed])
  | case8 quote backslash lineFeed carriageReturn _ _ _ control =>
      exact .code (by simp [reserved, quote, backslash, lineFeed, carriageReturn]) control
  | case9 quote backslash lineFeed carriageReturn _ _ _ visible =>
      exact .plain (by simp [reserved, quote, backslash, lineFeed, carriageReturn]) (by simpa using visible)

/-- Letters and the characters they stand for have one code unit each. No letter is a `u`, so no escape of a
string literal looks like a unicode escape. -/
theorem fits_of_mem_escapes {l c : Char} (escape : (l, c) ∈ escapes) :
    escapeValue? (unit l) = some (unit c) ∧ charUnits l = [unit l] ∧ charUnits c = [unit c]
      ∧ unit l ≠ unit 'u' ∧ Text.isControl l = false := by
  have all : (escapes.all fun escape => decide (escapeValue? (unit escape.1) = some (unit escape.2)
      ∧ charUnits escape.1 = [unit escape.1] ∧ charUnits escape.2 = [unit escape.2]
      ∧ unit escape.1 ≠ unit 'u' ∧ Text.isControl escape.1 = false)) = true := by decide
  exact of_decide_eq_true (List.all_eq_true.1 all (l, c) escape)

private theorem lt_of_mem_reserved {c : Char} (isReserved : c ∈ reserved) : c.toNat < 0xD800 := by
  have all : (reserved.all fun c => decide (c.toNat < 0xD800)) = true := by decide
  exact of_decide_eq_true (List.all_eq_true.1 all c isReserved)

private theorem lt_of_isControl {c : Char} (control : Text.isControl c = true) : c.toNat < 0xA0 := by
  simp only [Text.isControl, Bool.or_eq_true, Bool.and_eq_true, decide_eq_true_eq] at control
  omega

/-! ## The two steps, character by character -/

private theorem translate_of_ne {u : UInt16} (plain : u ≠ unit '\\') (even : Bool) (rest : List UInt16) :
    translate even (u :: rest) = (translate true rest).map (u :: ·) := by
  rw [translate]
  simp [plain]

private theorem translate_after_odd (u : UInt16) (rest : List UInt16) :
    translate false (u :: rest) = (translate true rest).map (u :: ·) := by
  rw [translate]
  by_cases slash : u = unit '\\'
  · simp [slash]
  · simp [slash]

private theorem translate_letter {letter : UInt16} (noEscape : letter ≠ unit 'u') (rest : List UInt16) :
    translate true (unit '\\' :: letter :: rest)
      = (translate true rest).map ([unit '\\', letter] ++ ·) := by
  rw [translate]
  simp [noEscape, translate_after_odd, Function.comp_def]

private theorem translate_escape {digits rest : List UInt16} {value : UInt16}
    (read : readEscape? (unit 'u' :: digits) = some (value, rest)) :
    translate true (unit '\\' :: unit 'u' :: digits) = (translate true rest).map ([value] ++ ·) := by
  rw [translate]
  simp only [List.head?_cons, and_self, ite_true]
  split
  · rename_i found after same
    rw [read] at same
    cases same
    rfl
  · rename_i absent
    simp [read] at absent

private theorem translate_units {units : List UInt16} (plain : unit '\\' ∉ units) (rest : List UInt16) :
    translate true (units ++ rest) = (translate true rest).map (units ++ ·) := by
  induction units with
  | nil => simp
  | cons u units ih =>
      have parts : unit '\\' ≠ u ∧ unit '\\' ∉ units := by simpa using plain
      simp [translate_of_ne (Ne.symm parts.1), ih parts.2, Function.comp_def]

private theorem readBody_of_free {u : UInt16} (free : ∀ c ∈ reserved, u ≠ unit c) (rest : List UInt16) :
    readBody (u :: rest) = (readBody rest).map fun read => (u :: read.1, read.2) := by
  have noQuote : u ≠ unit '"' := free '"' (by decide)
  have noSlash : u ≠ unit '\\' := free '\\' (by decide)
  have noLineFeed : u ≠ unit '\n' := free '\n' (by decide)
  have noReturn : u ≠ unit '\r' := free '\r' (by decide)
  rw [readBody.eq_def]
  simp [noQuote, noSlash, noLineFeed, noReturn]

private theorem readBody_units {units : List UInt16} (free : ∀ c ∈ reserved, unit c ∉ units)
    (rest : List UInt16) :
    readBody (units ++ rest) = (readBody rest).map fun read => (units ++ read.1, read.2) := by
  induction units with
  | nil => simp
  | cons u units ih =>
      have here : ∀ c ∈ reserved, u ≠ unit c := by
        intro c isReserved same
        exact free c isReserved (by simp [same])
      have inRest := ih fun c isReserved inUnits => free c isReserved (List.mem_cons_of_mem u inUnits)
      simp [readBody_of_free here, inRest, Function.comp_def]

private theorem readBody_letter {l c : Char} (escape : (l, c) ∈ escapes) (rest : List UInt16) :
    readBody ([unit '\\', unit l] ++ rest)
      = (readBody rest).map fun read => (charUnits c ++ read.1, read.2) := by
  have noQuote : unit '\\' ≠ unit '"' := by decide
  obtain ⟨value, _, single, _⟩ := fits_of_mem_escapes escape
  simp [readBody, noQuote, value, single]

/-- The four digits that a control character is written with are read as its code. -/
theorem readEscape?_fourHexDigits {n : Nat} (small : n < 0xA0) (rest : List UInt16) :
    readEscape? (unit 'u' :: (codeUnits (fourHexDigits n) ++ rest)) = some (n.toUInt16, rest) := by
  have all : ∀ n < 0xA0, (codeUnits (fourHexDigits n)).length = 4
      ∧ (codeUnits (fourHexDigits n)).head? ≠ some (unit 'u')
      ∧ hexNumber? 0 (codeUnits (fourHexDigits n)) = some n := by decide +kernel
  obtain ⟨four, first, number⟩ := all n small
  generalize codeUnits (fourHexDigits n) = digits at four first number
  obtain ⟨a, b, c, d, rfl⟩ : ∃ a b c d, digits = [a, b, c, d] := by
    rcases digits with _ | ⟨a, _ | ⟨b, _ | ⟨c, _ | ⟨d, _ | _⟩⟩⟩⟩ <;> simp at four
    exact ⟨a, b, c, d, rfl⟩
  have notMark : a ≠ unit 'u' := by simpa using first
  simp [readEscape?, notMark, number]

/-- Inside of a string literal a text stands for a value: whatever follows, the text is translated to
something that is read as the value. -/
def StandsFor (text value : List Char) : Prop :=
  ∃ between,
    (∀ rest, translate true (codeUnits text ++ rest) = (translate true rest).map (between ++ ·))
    ∧ ∀ rest, readBody (between ++ rest)
      = (readBody rest).map fun read => (codeUnits value ++ read.1, read.2)

namespace StandsFor

/-- No text stands for no text. -/
theorem nil : StandsFor [] [] :=
  ⟨[], fun rest => by simp [codeUnits], fun rest => by simp [codeUnits]⟩

/-- Texts one after the other stand for what each of them stands for. -/
theorem append {text value more others : List Char} (first : StandsFor text value)
    (second : StandsFor more others) : StandsFor (text ++ more) (value ++ others) := by
  obtain ⟨between, translated, read⟩ := first
  obtain ⟨after, translatedMore, readMore⟩ := second
  refine ⟨between ++ after, fun rest => ?_, fun rest => ?_⟩
  · have units : codeUnits (text ++ more) ++ rest = codeUnits text ++ (codeUnits more ++ rest) := by
      simp [codeUnits]
    simp [units, translated, translatedMore, Function.comp_def]
  · simp [codeUnits, read, readMore, Function.comp_def]

/-- However a character is written, it is what is read. -/
theorem of_spells {c : Char} {text : List Char} (spells : Spells c text) : StandsFor text [c] := by
  have single : codeUnits [c] = charUnits c := by simp [codeUnits]
  have freeUnits : c ∉ reserved → ∀ d ∈ reserved, unit d ∉ charUnits c := by
    intro free d isReserved member
    have same := eq_of_mem_charUnits (lt_of_mem_reserved isReserved) member
    exact free (same ▸ isReserved)
  cases spells with
  | @letter l escape =>
      obtain ⟨_, ofLetter, _, noEscape, _⟩ := fits_of_mem_escapes escape
      have slash : charUnits '\\' = [unit '\\'] := rfl
      have text : codeUnits ['\\', l] = [unit '\\', unit l] := by simp [codeUnits, slash, ofLetter]
      refine ⟨[unit '\\', unit l], fun rest => ?_, fun rest => ?_⟩
      · simpa [text] using translate_letter noEscape rest
      · simpa [single] using readBody_letter escape rest
  | code free control =>
      have small := lt_of_isControl control
      have units : charUnits c = [unit c] := by
        have oneUnit : c.toNat < 0x10000 := by omega
        simp [charUnits, oneUnit]
      refine ⟨[unit c], fun rest => ?_, fun rest => ?_⟩
      · have marks : codeUnits ('\\' :: 'u' :: fourHexDigits c.toNat)
            = unit '\\' :: unit 'u' :: codeUnits (fourHexDigits c.toNat) := rfl
        rw [marks]
        exact translate_escape (readEscape?_fourHexDigits small rest)
      · have inBody := readBody_units (freeUnits free) rest
        simpa [single, units] using inBody
  | plain free visible =>
      have noSlash : unit '\\' ∉ charUnits c := freeUnits free '\\' (by decide)
      refine ⟨charUnits c, fun rest => ?_, fun rest => ?_⟩
      · simpa [single] using translate_units noSlash rest
      · simpa [single] using readBody_units (freeUnits free) rest

end StandsFor

private theorem standsFor_flatMap (value : List Char) : StandsFor (value.flatMap javaChar) value := by
  induction value with
  | nil => exact .nil
  | cons c rest ih => exact (StandsFor.of_spells (spells_javaChar c)).append ih

/-- A text between quotes is read as the value it stands for. -/
theorem readLiteral_of_standsFor {text value : List Char} (stands : StandsFor text value) :
    readLiteral (codeUnits ('"' :: (text ++ ['"']))) = some (codeUnits value, []) := by
  obtain ⟨between, translated, read⟩ := stands
  have noSlash : unit '"' ≠ unit '\\' := by decide
  have units : codeUnits ('"' :: (text ++ ['"'])) = unit '"' :: (codeUnits text ++ [unit '"']) := by
    simp [codeUnits, charUnits]
  have quote : translate true [unit '"'] = some [unit '"'] := by
    simp [translate_of_ne noSlash, translate]
  have whole : translate true (codeUnits ('"' :: (text ++ ['"'])))
      = some (unit '"' :: (between ++ [unit '"'])) := by
    rw [units, translate_of_ne noSlash, translated, quote]
    rfl
  have closing : readBody [unit '"'] = some ([], []) := by simp [readBody]
  simp [readLiteral, whole, read, closing]

/-! ## Quotes and control characters -/

/-- The number of backslashes directly before the end of a text. -/
def backslashesAtEnd (text : List Char) : Nat :=
  (text.reverse.takeWhile (· = '\\')).length

private theorem backslashesAtEnd_append_slash (text : List Char) :
    backslashesAtEnd (text ++ ['\\']) = backslashesAtEnd text + 1 := by
  simp [backslashesAtEnd]

private theorem backslashesAtEnd_append_of_ne {c : Char} (other : c ≠ '\\') (text : List Char) :
    backslashesAtEnd (text ++ [c]) = 0 := by
  simp [backslashesAtEnd, other]

/-- All quotes of a text that comes after another one have an odd number of backslashes before them. -/
def QuotesEscaped (before text : List Char) : Prop :=
  ∀ start after, text = start ++ '"' :: after → backslashesAtEnd (before ++ start) % 2 = 1

/-- Quotes stay escaped in texts one after the other. -/
theorem QuotesEscaped.append {before text more : List Char} (first : QuotesEscaped before text)
    (second : QuotesEscaped (before ++ text) more) : QuotesEscaped before (text ++ more) := by
  intro start after split
  rcases List.append_eq_append_iff.1 split with ⟨gap, isStart, isMore⟩ | ⟨gap, isText, rest⟩
  · simpa [isStart] using second gap after isMore
  · cases gap with
    | nil =>
        simp only [List.nil_append] at rest
        simpa [isText] using second [] after rest.symm
    | cons c gap =>
        have parts : '"' = c ∧ after = gap ++ more := by simpa using rest
        exact first start gap (by rw [isText, parts.1])

private theorem quotesEscaped_of_not_mem {before text : List Char} (noQuote : '"' ∉ text) :
    QuotesEscaped before text := by
  intro start after split
  exact absurd (by simp [split]) noQuote

private theorem backslashesAtEnd_append_of_free {text : List Char} (nonempty : text ≠ [])
    (free : '\\' ∉ text) (before : List Char) : backslashesAtEnd (before ++ text) = 0 := by
  rcases List.eq_nil_or_concat text with isNil | ⟨start, last, rfl⟩
  · exact absurd isNil nonempty
  · have other : last ≠ '\\' := by
      intro isSlash
      exact free (by simp [isSlash])
    simpa using backslashesAtEnd_append_of_ne other (before ++ start)

private theorem mem_fourHexDigits {n : Nat} (small : n < 0xA0) {digit : Char}
    (member : digit ∈ fourHexDigits n) :
    digit ∉ reserved ∧ Text.isControl digit = false := by
  have all : ∀ n < 0xA0, ((fourHexDigits n).all fun digit =>
      decide (digit ∉ reserved ∧ Text.isControl digit = false)) = true := by decide +kernel
  exact of_decide_eq_true (List.all_eq_true.1 (all n small) digit member)

private theorem not_mem_code {c : Char} (control : Text.isControl c = true) :
    '\\' ∉ 'u' :: fourHexDigits c.toNat ∧ '"' ∉ 'u' :: fourHexDigits c.toNat := by
  have digits : ∀ d ∈ reserved, d ∉ fourHexDigits c.toNat := by
    intro d isReserved member
    exact (mem_fourHexDigits (lt_of_isControl control) member).1 isReserved
  have noSlash := digits '\\' (by decide)
  have noQuote := digits '"' (by decide)
  simp [noSlash, noQuote]

namespace Spells

variable {c : Char} {text : List Char}

/-- No control character is written as it is. -/
theorem visible (spells : Spells c text) : ∀ d ∈ text, Text.isControl d = false := by
  have slash : Text.isControl '\\' = false := by decide
  cases spells with
  | @letter l escape =>
      obtain ⟨_, _, _, _, isVisible⟩ := fits_of_mem_escapes escape
      simpa [slash] using isVisible
  | code free control =>
      have mark : Text.isControl 'u' = false := by decide
      have digits : ∀ d ∈ fourHexDigits c.toNat, Text.isControl d = false :=
        fun d member => (mem_fourHexDigits (lt_of_isControl control) member).2
      simpa [slash, mark] using digits
  | plain free isVisible => simpa using isVisible

/-- After a written character there is an even number of backslashes, as before it. -/
theorem even_backslashes (spells : Spells c text) {before : List Char}
    (even : backslashesAtEnd before % 2 = 0) : backslashesAtEnd (before ++ text) % 2 = 0 := by
  cases spells with
  | @letter l escape =>
      have twoParts : before ++ ['\\', l] = before ++ ['\\'] ++ [l] := by simp
      rw [twoParts]
      by_cases isSlash : l = '\\'
      · rw [isSlash, backslashesAtEnd_append_slash, backslashesAtEnd_append_slash]
        omega
      · rw [backslashesAtEnd_append_of_ne isSlash]
  | code free control =>
      have noSlash := (not_mem_code control).1
      have ends := backslashesAtEnd_append_of_free (by simp) noSlash (before ++ ['\\'])
      simpa using congrArg (· % 2) ends
  | plain free isVisible =>
      have noSlash : c ≠ '\\' := by
        intro isSlash
        exact free (by simp [reserved, isSlash])
      rw [backslashesAtEnd_append_of_ne noSlash]

/-- A quote in a written character is escaped. -/
theorem quotesEscaped (spells : Spells c text) {before : List Char}
    (even : backslashesAtEnd before % 2 = 0) : QuotesEscaped before text := by
  cases spells with
  | @letter l escape =>
      intro start after split
      -- the quote can only be the letter, since the character before it is a backslash
      rcases start with _ | ⟨d, _ | ⟨e, start⟩⟩
      · simp at split
      · have isSlash : '\\' = d := by simpa using (List.cons.inj split).1
        rw [← isSlash, backslashesAtEnd_append_slash]
        omega
      · simp at split
  | code free control => exact quotesEscaped_of_not_mem (by simpa using (not_mem_code control).2)
  | plain free isVisible =>
      apply quotesEscaped_of_not_mem
      intro isQuote
      exact free (by simp [reserved, ← List.mem_singleton.1 isQuote])

end Spells

private theorem quotesEscaped_flatMap (value : List Char) {before : List Char}
    (even : backslashesAtEnd before % 2 = 0) : QuotesEscaped before (value.flatMap javaChar) := by
  induction value generalizing before with
  | nil =>
      intro start after split
      simp at split
  | cons c rest ih =>
      have spells := spells_javaChar c
      exact (spells.quotesEscaped even).append (ih (spells.even_backslashes even))

end JavaSource

open JavaSource

/-- A written literal is read, with nothing left over, as the value it was written for and as no other.
Between its quotes there is no control character, in particular no line terminator, and every quote has an
odd number of backslashes before it. -/
theorem javaLiteral_reads_back (value : String) :
    (∀ other : String,
      readLiteral (codeUnits (javaLiteral value).toList) = some (codeUnits other.toList, []) ↔ other = value)
    ∧ ∃ body, (javaLiteral value).toList = '"' :: (body ++ ['"'])
      ∧ (∀ c ∈ body, Text.isControl c = false)
      ∧ ∀ start after, body = start ++ '"' :: after → backslashesAtEnd start % 2 = 1 := by
  have written : (javaLiteral value).toList = '"' :: (value.toList.flatMap javaChar ++ ['"']) := by
    simp [javaLiteral]
  have read := readLiteral_of_standsFor (standsFor_flatMap value.toList)
  rw [← written] at read
  constructor
  · intro other
    rw [read]
    constructor
    · intro same
      have units : codeUnits value.toList = codeUnits other.toList := by simpa using same
      exact (String.toList_injective (codeUnits_injective units)).symm
    · intro same
      rw [same]
  · refine ⟨_, written, ?_, ?_⟩
    · intro c member
      obtain ⟨d, _, inChar⟩ := List.mem_flatMap.1 member
      exact (spells_javaChar d).visible c inChar
    · have nothingBefore : backslashesAtEnd [] % 2 = 0 := rfl
      exact quotesEscaped_flatMap value.toList nothingBefore

end MixinLink
