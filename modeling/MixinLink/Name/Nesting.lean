import MixinLink.Name.Basic

/-!
# Nested classes

The name of a nested class is the name of the enclosing class, `$`, and a simple name. Only a `$` that
stands between two characters other than `$` of the last part of a class name separates classes, so
`a$$b` and `a$` are top level names.

`ClassName.nesting` divides a name into its top level class and the simple names that lead into it,
`ClassName.within` goes the other way, and `ClassName.trail` lists the enclosing classes from the
outside to the class itself.

Main exports: `ClassName.package`, `ClassName.nesting`, `ClassName.trail`, `ClassName.path`,
`ClassName.isInner`, `ClassName.parent?`, `ClassName.joinInner`.
-/

namespace MixinLink

/-- The text starts with a character other than `$`. -/
def startsPlain : List Char → Bool
  | [] => false
  | c :: _ => c ≠ '$'

/-- Cuts a text at every `$` that stands between two characters other than `$`: the first piece and
the pieces after it. `plain` says whether the character before the text is there and is no `$`. -/
def cutNested (plain : Bool) : List Char → List Char × List (List Char)
  | [] => ([], [])
  | c :: rest =>
    let cut := cutNested (c ≠ '$') rest
    if plain && c = '$' && startsPlain rest then ([], cut.1 :: cut.2) else (c :: cut.1, cut.2)

/-- Pieces put together, with `$` in front of all but the first. -/
def joinPieces (first : List Char) (pieces : List (List Char)) : List Char :=
  first ++ pieces.flatMap ('$' :: ·)

/-- A single piece is left as it is. -/
@[simp]
theorem joinPieces_nil (first : List Char) : joinPieces first [] = first := by
  simp [joinPieces]

/-- The first piece, a dollar and then the others. -/
theorem joinPieces_cons (first piece : List Char) (pieces : List (List Char)) :
    joinPieces first (piece :: pieces) = first ++ '$' :: joinPieces piece pieces := by
  simp [joinPieces]

/-- What is put before the first piece is put before the whole. -/
theorem joinPieces_append (lead first : List Char) (pieces : List (List Char)) :
    joinPieces (lead ++ first) pieces = lead ++ joinPieces first pieces := by
  simp [joinPieces]

/-- Cutting a text loses nothing. -/
theorem joinPieces_cutNested (plain : Bool) (text : List Char) :
    joinPieces (cutNested plain text).1 (cutNested plain text).2 = text := by
  induction text generalizing plain with
  | nil => rfl
  | cons c rest ih =>
      have whole := ih (c ≠ '$')
      simp only [cutNested]
      split
      · rename_i separates
        simp only [Bool.and_eq_true, decide_eq_true_eq] at separates
        rw [joinPieces_cons, whole, separates.1.2, List.nil_append]
      · have shifted := joinPieces_append [c] (cutNested (c ≠ '$') rest).1
          (cutNested (c ≠ '$') rest).2
        rw [whole] at shifted
        exact shifted

/-- A class name divided into the package, with its closing `/`, and the rest. -/
def splitPackage (text : List Char) : List Char × List Char :=
  match Text.splitLast? '/' text with
  | some (before, after) => (before ++ ['/'], after)
  | none => ([], text)

/-- The package and the rest make up the text. -/
theorem splitPackage_append (text : List Char) :
    (splitPackage text).1 ++ (splitPackage text).2 = text := by
  unfold splitPackage
  split
  · rename_i before after found
    simp [(Text.splitLast?_eq_some found).1]
  · simp

/-- Putting another simple text in the place of the last part keeps a class text valid. -/
theorem isClassText_package_append {text part : List Char}
    (valid : isClassText text = true) (simple : isSimpleText part = true) :
    isClassText ((splitPackage text).1 ++ part) = true := by
  have noSlash := slash_not_mem_of_isSimpleText simple
  unfold splitPackage
  split
  · rename_i before after found
    have split := (Text.splitLast?_eq_some found).1
    rw [isClassText, split, Text.segments_append, List.all_append, Bool.and_eq_true] at valid
    simp only [isClassText, List.append_assoc, List.singleton_append]
    rw [Text.segments_append, Text.segments_of_not_mem noSlash]
    simp [valid.1, simple]
  · simp [isClassText, Text.segments_of_not_mem noSlash, simple]

/-- The last part of a class text is a simple text. -/
theorem isSimpleText_last {text : List Char} (valid : isClassText text = true) :
    isSimpleText (splitPackage text).2 = true := by
  unfold splitPackage
  split
  · rename_i before after found
    obtain ⟨split, noSlash⟩ := Text.splitLast?_eq_some found
    rw [isClassText, split, Text.segments_append, Text.segments_of_not_mem noSlash] at valid
    simp only [List.all_append, List.all_cons, List.all_nil, Bool.and_true, Bool.and_eq_true] at valid
    exact valid.2
  · rename_i absent
    rw [isClassText, Text.segments_of_not_mem (Text.splitLast?_eq_none.1 absent)] at valid
    simpa using valid

/-- Every character of a piece is a character of the text. -/
theorem mem_of_mem_cutNested {plain : Bool} {text : List Char} {c : Char} :
    (c ∈ (cutNested plain text).1 ∨ ∃ piece ∈ (cutNested plain text).2, c ∈ piece) → c ∈ text := by
  induction text generalizing plain with
  | nil => simp [cutNested]
  | cons d rest ih =>
    intro member
    simp only [cutNested] at member
    split at member
    · rcases member with absurd | ⟨piece, isPiece, inside⟩
      · simp at absurd
      · rcases List.mem_cons.1 isPiece with rfl | later
        · exact List.mem_cons_of_mem _ (ih (.inl inside))
        · exact List.mem_cons_of_mem _ (ih (.inr ⟨piece, later, inside⟩))
    · rcases member with inFirst | later
      · rcases List.mem_cons.1 inFirst with rfl | inside
        · exact List.mem_cons_self
        · exact List.mem_cons_of_mem _ (ih (.inl inside))
      · exact List.mem_cons_of_mem _ (ih (.inr later))

/-- A text that starts with a character other than `$`, or is preceded by nothing to cut from, has a
first piece that is not empty. -/
theorem cutNested_first_ne_nil {plain : Bool} {text : List Char}
    (start : startsPlain text = true ∨ (plain = false ∧ text ≠ [])) :
    (cutNested plain text).1 ≠ [] := by
  cases text with
  | nil => simp [startsPlain] at start
  | cons c rest =>
    simp only [cutNested]
    split
    · rename_i cond
      rcases start with plainStart | notPlain
      · simp [startsPlain] at plainStart
        simp [plainStart] at cond
      · simp [notPlain.1] at cond
    · simp

/-- The pieces after the first one are not empty. -/
theorem cutNested_piece_ne_nil {plain : Bool} {text piece : List Char}
    (member : piece ∈ (cutNested plain text).2) : piece ≠ [] := by
  induction text generalizing plain with
  | nil => simp [cutNested] at member
  | cons c rest ih =>
    simp only [cutNested] at member
    split at member
    · rename_i cond
      rcases List.mem_cons.1 member with rfl | later
      · simp only [Bool.and_eq_true] at cond
        exact cutNested_first_ne_nil (.inl cond.2)
      · exact ih later
    · exact ih member

/-- The pieces of a simple text are simple texts. -/
theorem isSimpleText_pieces {text : List Char} (simple : isSimpleText text = true) :
    isSimpleText (cutNested false text).1 = true ∧
      ∀ piece ∈ (cutNested false text).2, isSimpleText piece = true := by
  simp only [isSimpleText_iff] at simple ⊢
  refine ⟨⟨cutNested_first_ne_nil (.inr ⟨rfl, simple.1⟩), fun c inside => ?_⟩,
    fun piece isPiece => ⟨cutNested_piece_ne_nil isPiece, fun c inside => ?_⟩⟩
  · exact simple.2 c (mem_of_mem_cutNested (.inl inside))
  · exact simple.2 c (mem_of_mem_cutNested (.inr ⟨piece, isPiece, inside⟩))

/-- Appending `$` and a simple text to a simple text gives a simple text. -/
theorem isSimpleText_append_dollar {text part : List Char}
    (simple : isSimpleText text = true) (partSimple : isSimpleText part = true) :
    isSimpleText (text ++ '$' :: part) = true := by
  rw [isSimpleText_iff] at simple partSimple ⊢
  refine ⟨by simp, fun c inside => ?_⟩
  rcases List.mem_append.1 inside with first | second
  · exact simple.2 c first
  · rcases List.mem_cons.1 second with rfl | later
    · decide
    · exact partSimple.2 c later

/-- Appending `$` and a simple text to a class text gives a class text. -/
theorem isClassText_append_dollar {text part : List Char}
    (valid : isClassText text = true) (simple : isSimpleText part = true) :
    isClassText (text ++ '$' :: part) = true := by
  have joined := isSimpleText_append_dollar (isSimpleText_last valid) simple
  have whole := isClassText_package_append valid joined
  rwa [← List.append_assoc, splitPackage_append] at whole

/-- A top level class and the simple names that lead from it to a nested class. -/
structure Nesting where
  top : ClassName
  inner : List SimpleName
deriving DecidableEq

namespace ClassName

/-- The package with its closing `/`, empty for classes outside of packages. -/
def package (name : ClassName) : String :=
  String.ofList (splitPackage name.text.toList).1

/-- The name without its package. -/
def unpackaged (name : ClassName) : String :=
  String.ofList (splitPackage name.text.toList).2

/-- Divides a name at the `$` that separate nested classes. -/
def nesting (name : ClassName) : Nesting :=
  let parts := splitPackage name.text.toList
  have pieces := isSimpleText_pieces (isSimpleText_last name.valid)
  { top :=
      ⟨String.ofList (parts.1 ++ (cutNested false parts.2).1), by
        rw [String.toList_ofList]
        exact isClassText_package_append name.valid pieces.1⟩
    inner := (cutNested false parts.2).2.attach.map fun piece =>
      ⟨String.ofList piece.1, by
        rw [String.toList_ofList]
        exact pieces.2 piece.1 piece.2⟩ }

/-- The class with a given simple name directly inside of another class. -/
def within (parent : ClassName) (simple : SimpleName) : ClassName :=
  ⟨String.ofList (parent.text.toList ++ '$' :: simple.text.toList), by
    rw [String.toList_ofList]
    exact isClassText_append_dollar parent.valid simple.valid⟩

/-- The name of a nested class. -/
def isInner (name : ClassName) : Bool :=
  !name.nesting.inner.isEmpty

/-- The beginning of a name, as long as it is a class name of its own. -/
def upTo (name : ClassName) (length : Nat)
    (valid : isClassText (name.text.toList.take length) = true) : ClassName :=
  ⟨String.ofList (name.text.toList.take length), by rwa [String.toList_ofList]⟩

/-- Up to some length a name is a class name of its own, and from there on it leads into nested classes. -/
structure LeadsInto (name : ClassName) (length : Nat) (inner : List SimpleName) : Prop where
  valid : isClassText (name.text.toList.take length) = true
  rest : name.text.toList.drop length = inner.flatMap fun simple => '$' :: simple.text.toList

/-- Right before the next separating `$`, or at the end, the name is a class name as well. -/
theorem LeadsInto.next {name : ClassName} {length : Nat} {simple : SimpleName} {inner : List SimpleName}
    (leads : name.LeadsInto length (simple :: inner)) :
    name.LeadsInto (length + 1 + simple.text.length) inner := by
  have cut : name.text.toList.drop length
      = ('$' :: simple.text.toList) ++ inner.flatMap fun simple => '$' :: simple.text.toList := by
    rw [leads.rest, List.flatMap_cons]
  have size : ('$' :: simple.text.toList).length = 1 + simple.text.length := by
    rw [List.length_cons, String.length_toList, Nat.add_comm]
  constructor
  · rw [Nat.add_assoc, List.take_add, cut, ← size, List.take_left]
    exact isClassText_append_dollar leads.valid simple.valid
  · rw [Nat.add_assoc, ← List.drop_drop, cut, ← size, List.drop_left]

/-- The same holds further on, after some of the simple names. -/
theorem LeadsInto.skip {name : ClassName} {length : Nat} {passed inner : List SimpleName}
    (leads : name.LeadsInto length (passed ++ inner)) :
    name.LeadsInto (length + (passed.flatMap fun simple => '$' :: simple.text.toList).length) inner := by
  induction passed generalizing length with
  | nil => exact leads
  | cons simple passed ih =>
      have further := ih leads.next
      have size : length + 1 + simple.text.length
            + (passed.flatMap fun simple => '$' :: simple.text.toList).length
          = length + ((simple :: passed).flatMap fun simple => '$' :: simple.text.toList).length := by
        simp only [List.flatMap_cons, List.length_append, List.length_cons, String.length_toList]
        omega
      rwa [size] at further

/-- The top level class is the beginning of the name, and the simple names are the rest of it. -/
theorem toList_eq_joinPieces (name : ClassName) :
    name.text.toList
      = joinPieces name.nesting.top.text.toList (name.nesting.inner.map (·.text.toList)) := by
  have pieces : name.nesting.inner.map (·.text.toList)
      = (cutNested false (splitPackage name.text.toList).2).2 := by
    simp [nesting, Function.comp_def]
  have top : name.nesting.top.text.toList
      = (splitPackage name.text.toList).1 ++ (cutNested false (splitPackage name.text.toList).2).1 := by
    simp [nesting]
  rw [pieces, top, joinPieces_append, joinPieces_cutNested, splitPackage_append]

/-- From its top level class on, a name leads into the nested classes. -/
theorem leadsInto_inner (name : ClassName) :
    name.LeadsInto name.nesting.top.text.length name.nesting.inner := by
  have whole := name.toList_eq_joinPieces
  rw [joinPieces, List.flatMap_map] at whole
  constructor
  · rw [whole, ← String.length_toList, List.take_left]
    exact name.nesting.top.valid
  · rw [whole, ← String.length_toList, List.drop_left]

/-- Without its last simple name, a nested class has the name of the class around it. -/
theorem isClassText_dropLast {name : ClassName} {last : SimpleName}
    (isLast : name.nesting.inner.getLast? = some last) :
    isClassText (name.text.toList.take (name.text.length - last.text.length - 1)) = true := by
  obtain ⟨around, inner⟩ := List.getLast?_eq_some_iff.1 isLast
  have leads := name.leadsInto_inner
  rw [inner] at leads
  obtain ⟨valid, rest⟩ := leads.skip
  have size := congrArg List.length rest
  rw [List.flatMap_singleton, List.length_drop, List.length_cons, String.length_toList,
    String.length_toList] at size
  have isLength : name.text.length - last.text.length - 1
      = name.nesting.top.text.length
        + (around.flatMap fun simple => '$' :: simple.text.toList).length := by
    omega
  rwa [isLength]

/-- The classes on the way from a class into nested ones, each with its simple name. Their names are
beginnings of the name of the innermost class. -/
def trailFrom (name : ClassName) (length : Nat) :
    (inner : List SimpleName) → name.LeadsInto length inner → List (String × ClassName)
  | [], _ => []
  | simple :: inner, leads =>
    let upToHere := length + 1 + simple.text.length
    (simple.text, name.upTo upToHere leads.next.valid) :: trailFrom name upToHere inner leads.next

/-- The classes from the top level class to the class itself, each with the key under which a table
stores it: the full name of the top level class, the simple names of the others. -/
def trail (name : ClassName) : List (String × ClassName) :=
  (name.nesting.top.text, name.nesting.top)
    :: name.trailFrom name.nesting.top.text.length name.nesting.inner name.leadsInto_inner

/-- The keys on the way from the top level class to the class. -/
def path (name : ClassName) : List String :=
  name.nesting.top.text :: name.nesting.inner.map SimpleName.text

/-- The class directly around a nested class: its name ends before the last simple name. -/
def parent? (name : ClassName) : Option ClassName :=
  match isLast : name.nesting.inner.getLast? with
  | none => none
  | some last =>
    some (name.upTo (name.text.length - last.text.length - 1) (isClassText_dropLast isLast))

/-- The part of the name that tells the class apart inside of the class around it: the last simple
name of a nested class, the full name of a top level class. -/
def key (name : ClassName) : String :=
  match name.nesting.inner.getLast? with
  | some simple => simple.text
  | none => name.text

/-- Joins the name of an enclosing class and a name inside of it, which must have no `$`. -/
def joinInner (parent : ClassName) (inner : String) : Checked ClassName :=
  if inner.toList.isEmpty || inner.toList.contains '$' then
    Checked.refuse (.invalidInnerName inner parent.text)
  else
    parse (parent.text ++ "$" ++ inner)

end ClassName

end MixinLink
