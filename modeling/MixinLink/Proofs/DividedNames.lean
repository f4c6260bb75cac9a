import MixinLink.Proofs.FlatMap

/-!
# Where class names are divided

Which `$` of a class name separate classes is decided by the characters next to them: exactly those do that
stand between two characters other than `$` of the name without its package. So the simple names start with
another character than `$`, and each beginning of the name that ends in front of such a `$` is a class name,
divided at the same places.

Joining an enclosing class and a simple name puts a `$` between them. That `$` separates classes unless there
is one in front of it already, or the last part of the name only starts behind it.

Main exports: `ClassName.lead`, `ClassName.DividedAfter`, `ClassName.Divides`, `ClassName.divides`,
`ClassName.Inside`, `ClassName.inside_iff_joined`.
-/

namespace MixinLink

/-! ## Cuts in a text -/

/-- The last character is no `$`. `plain` says whether the character before the text is there and is no
`$`. -/
def endsPlain (plain : Bool) : List Char → Bool
  | [] => plain
  | c :: rest => endsPlain (c ≠ '$') rest

private theorem endsPlain_concat (plain : Bool) (front : List Char) (last : Char) :
    endsPlain plain (front ++ [last]) = decide (last ≠ '$') := by
  induction front generalizing plain with
  | nil => rfl
  | cons c front ih => exact ih _

private theorem endsPlain_false {text : List Char} :
    endsPlain false text = true ↔ ∃ front last, text = front ++ [last] ∧ last ≠ '$' := by
  constructor
  · intro ends
    rcases text.eq_nil_or_concat with rfl | ⟨front, last, rfl⟩
    · cases ends
    · rw [List.concat_eq_append, endsPlain_concat, decide_eq_true_eq] at ends
      exact ⟨front, last, List.concat_eq_append, ends⟩
  · rintro ⟨front, last, rfl, notDollar⟩
    rw [endsPlain_concat, decide_eq_true notDollar]

private theorem startsPlain_iff {text : List Char} :
    startsPlain text = true ↔ ∃ first back, text = first :: back ∧ first ≠ '$' := by
  cases text with
  | nil => simp [startsPlain]
  | cons c rest => simp [startsPlain]

/-- What stands in front of one of the places where a text was cut: the first piece and some of the others,
but not all of them. -/
def CutAfter (pieces : List Char × List (List Char)) (before : List Char) : Prop :=
  ∃ count < pieces.2.length, joinPieces pieces.1 (pieces.2.take count) = before

private theorem cutAfter_start (piece : List Char) (pieces : List (List Char)) :
    CutAfter ([], piece :: pieces) [] :=
  ⟨0, Nat.zero_lt_succ _, rfl⟩

private theorem not_cutAfter_start (c : Char) (first : List Char) (pieces : List (List Char)) :
    ¬CutAfter (c :: first, pieces) [] := by
  rintro ⟨count, _, whole⟩
  cases whole

private theorem cutAfter_dollar {piece : List Char} {pieces : List (List Char)} {before : List Char} :
    CutAfter ([], piece :: pieces) ('$' :: before) ↔ CutAfter (piece, pieces) before := by
  constructor
  · rintro ⟨_ | count, less, whole⟩
    · cases whole
    · refine ⟨count, Nat.lt_of_succ_lt_succ less, ?_⟩
      rw [List.take_succ_cons, joinPieces_cons, List.nil_append] at whole
      exact List.tail_eq_of_cons_eq whole
  · rintro ⟨count, less, rfl⟩
    refine ⟨count + 1, Nat.succ_lt_succ less, ?_⟩
    rw [List.take_succ_cons, joinPieces_cons, List.nil_append]

private theorem cutAfter_cons {c : Char} {first : List Char} {pieces : List (List Char)}
    {before : List Char} :
    CutAfter (c :: first, pieces) (c :: before) ↔ CutAfter (first, pieces) before := by
  constructor
  · rintro ⟨count, less, whole⟩
    exact ⟨count, less, List.tail_eq_of_cons_eq whole⟩
  · rintro ⟨count, less, rfl⟩
    exact ⟨count, less, rfl⟩

/-- A text is cut exactly at the `$` between two other characters. -/
theorem cutAfter_cutNested (plain : Bool) (before after : List Char) :
    CutAfter (cutNested plain (before ++ '$' :: after)) before
      ↔ endsPlain plain before = true ∧ startsPlain after = true := by
  induction before generalizing plain with
  | nil =>
      rw [List.nil_append, cutNested]
      split
      · rename_i separates
        simp only [Bool.and_eq_true, decide_eq_true_eq] at separates
        exact iff_of_true (cutAfter_start _ _) ⟨separates.1.1, separates.2⟩
      · rename_i inside
        refine iff_of_false (not_cutAfter_start _ _ _) fun separates => inside ?_
        simp only [endsPlain] at separates
        simp [separates]
  | cons c before ih =>
      -- whether `c` is cut at or not, the cut in question lies in what follows it
      rw [List.cons_append, cutNested, endsPlain, ← ih]
      split
      · rename_i separates
        simp only [Bool.and_eq_true, decide_eq_true_eq] at separates
        rw [separates.1.2]
        exact cutAfter_dollar
      · exact cutAfter_cons

/-- Behind a cut, the text goes on with another character than `$`. -/
theorem startsPlain_of_mem_cutNested {plain : Bool} {text piece : List Char}
    (member : piece ∈ (cutNested plain text).2) : startsPlain piece = true := by
  induction text generalizing plain with
  | nil => simp [cutNested] at member
  | cons c rest ih =>
      rw [cutNested] at member
      split at member
      · rename_i separates
        simp only [Bool.and_eq_true] at separates
        rcases List.mem_cons.1 member with rfl | later
        · have starts := startsPlain_joinPieces_take (c ≠ '$') (.inl separates.2) 0
          rwa [List.take_zero, joinPieces_nil, separates.2] at starts
        · exact ih later
      · exact ih member

/-! ## Divided names -/

namespace ClassName

/-- The beginning of a name: its top level class and some of the simple names that lead into it, with `$`
between them. -/
def lead (name : ClassName) (count : Nat) : String :=
  "$".intercalate (name.nesting.top.text :: (name.nesting.inner.take count).map SimpleName.text)

/-- The name is divided behind a text: the text is the top level class with some of the simple names, but
not with all of them. -/
def DividedAfter (name : ClassName) (before : List Char) : Prop :=
  ∃ count < name.nesting.inner.length, (name.lead count).toList = before

private theorem toList_lead (name : ClassName) (count : Nat) :
    (name.lead count).toList
      = name.package.toList ++ joinPieces (cutNested false (splitPackage name.text.toList).2).1
          ((cutNested false (splitPackage name.text.toList).2).2.take count) := by
  rw [lead, toList_intercalate_dollar, List.map_map, Function.comp_def, List.map_take, toList_nesting_inner,
    toList_nesting_top, joinPieces_append, package, String.toList_ofList]

private theorem text_take (name : ClassName) (count : Nat) :
    (Nesting.mk name.nesting.top (name.nesting.inner.take count)).name.text = name.lead count := by
  apply String.toList_injective
  rw [Nesting.name, toList_foldl_within, lead, toList_intercalate_dollar, List.map_map]
  rfl

private theorem lead_all (name : ClassName) : name.lead name.nesting.inner.length = name.text := by
  rw [lead, List.take_length]
  exact name.text_eq_intercalate_path.symm

private theorem package_append_unpackaged (name : ClassName) :
    name.package ++ name.unpackaged = name.text := by
  apply String.toList_injective
  simp [package, unpackaged, splitPackage_append]

private theorem package_ends (name : ClassName) :
    name.package = "" ∨ name.package.toList.getLast? = some '/' := by
  unfold package splitPackage
  split
  · right
    rw [String.toList_ofList, List.getLast?_concat]
  · left
    rfl

/-- A beginning of a name that ends in front of a separating `$` is a class name, and divided like the
name. -/
theorem parse_lead (name : ClassName) (count : Nat) :
    ∃ around, parse (name.lead count) = .ok around
      ∧ around.nesting = ⟨name.nesting.top, name.nesting.inner.take count⟩ :=
  ⟨_, parse_eq_ok.2 (name.text_take count), name.nesting_take count⟩

private theorem dividedAfter_iff_cutAfter {name : ClassName} {before : List Char} :
    name.DividedAfter before ↔ ∃ part, before = name.package.toList ++ part
      ∧ CutAfter (cutNested false (splitPackage name.text.toList).2) part := by
  have count : name.nesting.inner.length = (cutNested false (splitPackage name.text.toList).2).2.length := by
    rw [← toList_nesting_inner, List.length_map]
  constructor
  · rintro ⟨n, less, rfl⟩
    exact ⟨_, name.toList_lead n, n, Nat.lt_of_lt_of_eq less count, rfl⟩
  · rintro ⟨part, inside, n, less, whole⟩
    refine ⟨n, Nat.lt_of_lt_of_eq less count.symm, ?_⟩
    rw [toList_lead, whole, inside]

/-- A `$` separates classes exactly if it stands between two other characters of the name without its
package. -/
theorem dividedAfter_iff {name : ClassName} {before after : List Char}
    (whole : name.text.toList = before ++ '$' :: after) :
    name.DividedAfter before ↔ ∃ front last first back, before = name.package.toList ++ (front ++ [last])
      ∧ after = first :: back ∧ last ≠ '$' ∧ first ≠ '$' := by
  have divided (part : List Char) (inside : before = name.package.toList ++ part) :
      CutAfter (cutNested false (splitPackage name.text.toList).2) part
        ↔ endsPlain false part = true ∧ startsPlain after = true := by
    have unpackaged : (splitPackage name.text.toList).2 = part ++ '$' :: after := by
      have joined : name.package.toList ++ (splitPackage name.text.toList).2
          = name.package.toList ++ (part ++ '$' :: after) := by
        rw [← List.append_assoc, ← inside, ← whole, package, String.toList_ofList, splitPackage_append]
      exact List.append_cancel_left joined
    rw [unpackaged]
    exact cutAfter_cutNested false part after
  rw [dividedAfter_iff_cutAfter]
  constructor
  · rintro ⟨part, inside, cut⟩
    obtain ⟨ends, starts⟩ := (divided part inside).1 cut
    obtain ⟨front, last, rfl, notLast⟩ := endsPlain_false.1 ends
    obtain ⟨first, back, rfl, notFirst⟩ := startsPlain_iff.1 starts
    exact ⟨front, last, first, back, inside, rfl, notLast, notFirst⟩
  · rintro ⟨front, last, first, back, inside, follows, notLast, notFirst⟩
    have ends := endsPlain_false.2 ⟨front, last, rfl, notLast⟩
    have starts := startsPlain_iff.2 ⟨first, back, follows, notFirst⟩
    exact ⟨front ++ [last], inside, (divided _ inside).2 ⟨ends, starts⟩⟩

/-- How a class name is divided into its top level class and the simple names that lead into it. -/
structure Divides (name : ClassName) : Prop where
  /-- The parts with `$` between them are the name. -/
  whole : name.lead name.nesting.inner.length = name.text
  /-- Simple names are not empty and do not start with `$`. -/
  parts : ∀ simple ∈ name.nesting.inner, ∃ first back, simple.text.toList = first :: back ∧ first ≠ '$'
  /-- The top level class with the first few of the simple names is a class name, and divided like
  this one. -/
  around : ∀ count ≤ name.nesting.inner.length, ∃ around, parse (name.lead count) = .ok around
    ∧ around.nesting = ⟨name.nesting.top, name.nesting.inner.take count⟩
  /-- The package is everything up to the last `/`. -/
  package : name.package ++ name.unpackaged = name.text ∧ '/' ∉ name.unpackaged.toList
    ∧ (name.package = "" ∨ name.package.toList.getLast? = some '/')
  /-- The `$` that separate classes are those between two other characters behind the package. -/
  separated : ∀ before after, name.text.toList = before ++ '$' :: after →
    (name.DividedAfter before ↔ ∃ front last first back, before = name.package.toList ++ (front ++ [last])
      ∧ after = first :: back ∧ last ≠ '$' ∧ first ≠ '$')

/-- All class names are divided as described. -/
theorem divides (name : ClassName) : name.Divides where
  whole := name.lead_all
  parts simple member := by
    have piece : simple.text.toList ∈ (cutNested false (splitPackage name.text.toList).2).2 := by
      rw [← toList_nesting_inner]
      exact List.mem_map_of_mem member
    exact startsPlain_iff.1 (startsPlain_of_mem_cutNested piece)
  around count _ := name.parse_lead count
  package := by
    refine ⟨name.package_append_unpackaged, ?_, name.package_ends⟩
    rw [unpackaged, String.toList_ofList]
    exact name.noSlash_unpackaged
  separated _ _ whole := dividedAfter_iff whole

example : (parse "a$b/C$$D$1").toOption.map path = some ["a$b/C$$D", "1"] := by decide +kernel

/-! ## Joined names -/

/-- The class is directly inside of another one, under a simple name. -/
structure Inside (name parent : ClassName) (simple : String) : Prop where
  around : name.parent? = some parent
  top : name.nesting.top = parent.nesting.top
  inner : name.nesting.inner.map SimpleName.text = parent.nesting.inner.map SimpleName.text ++ [simple]

variable {name parent joined : ClassName} {simple : String}

private theorem inside_iff_path : name.Inside parent simple ↔ name.path = parent.path ++ [simple] := by
  constructor
  · intro inside
    rw [path, path, inside.top, inside.inner, List.cons_append]
  · intro extended
    have isKey : name.key = simple := by
      have last := name.getLast?_path
      rw [extended, List.getLast?_concat] at last
      exact (Option.some.inj last).symm
    have parts := extended
    rw [path, path, List.cons_append, List.cons.injEq] at parts
    exact ⟨parent?_eq_some.2 (by rw [isKey, extended]), ext_text parts.1, parts.2⟩

/-- A nested class is named after the class around it. -/
theorem Inside.text (inside : name.Inside parent simple) : name.text = parent.text ++ "$" ++ simple := by
  rw [text_eq_intercalate_path, inside_iff_path.1 inside, intercalate_dollar_concat parent.path_ne_nil,
    ← text_eq_intercalate_path]

/-- A class is divided behind the class around it. -/
theorem Inside.dividedAfter (inside : name.Inside parent simple) :
    name.DividedAfter parent.text.toList := by
  have one : name.nesting.inner.length = parent.nesting.inner.length + 1 := by
    have lengths := congrArg List.length inside.inner
    simpa using lengths
  have around : name.lead parent.nesting.inner.length = parent.text := by
    have parts : (name.nesting.inner.take parent.nesting.inner.length).map SimpleName.text
        = parent.nesting.inner.map SimpleName.text := by
      rw [List.map_take, inside.inner, List.take_left' (List.length_map _)]
    rw [lead, parts, inside.top]
    exact parent.text_eq_intercalate_path.symm
  exact ⟨_, Nat.lt_of_lt_of_eq (Nat.lt_succ_self _) one.symm, congrArg String.toList around⟩

private theorem joinInner_eq_ok : parent.joinInner simple = .ok joined
    ↔ simple.toList ≠ [] ∧ '$' ∉ simple.toList ∧ joined.text = parent.text ++ "$" ++ simple := by
  unfold joinInner
  split
  · rename_i refused
    simp only [Bool.or_eq_true, List.isEmpty_iff, List.contains_iff_mem] at refused
    refine iff_of_false Checked.refuse_ne_ok ?_
    rintro ⟨nonempty, noDollar, _⟩
    exact refused.elim nonempty noDollar
  · rename_i accepted
    simp only [Bool.or_eq_true, List.isEmpty_iff, List.contains_iff_mem, not_or] at accepted
    rw [parse_eq_ok]
    exact ⟨fun text => ⟨accepted.1, accepted.2, text⟩, fun parts => parts.2.2⟩

/-- What is joined to a class without a `/` in it is a simple name. -/
theorem isSimpleText_of_joined (joins : parent.joinInner simple = .ok joined)
    (noSlash : '/' ∉ simple.toList) :
    isSimpleText simple.toList = true := by
  obtain ⟨nonempty, _, text⟩ := joinInner_eq_ok.1 joins
  refine isSimpleText_iff.2 ⟨nonempty, fun c inSimple => ?_⟩
  have inJoined : c ∈ joined.text.toList := by
    rw [text, String.toList_append]
    exact List.mem_append_right _ inSimple
  refine (joined.plain_of_mem inJoined).resolve_left ?_
  rintro rfl
  exact noSlash inSimple

private theorem inside_iff_of_joined (joins : parent.joinInner simple = .ok joined) :
    joined.Inside parent simple ↔ parent.text.toList.getLast? ≠ some '$' ∧ '/' ∉ simple.toList := by
  obtain ⟨_, noDollar, text⟩ := joinInner_eq_ok.1 joins
  constructor
  · intro inside
    have whole : joined.text.toList = parent.text.toList ++ '$' :: simple.toList := by simp [text]
    obtain ⟨front, last, _, _, before, _, notDollar, _⟩ := (dividedAfter_iff whole).1 inside.dividedAfter
    have ends : parent.text.toList.getLast? = some last := by
      rw [before, ← List.append_assoc, List.getLast?_concat]
    have isPart : simple ∈ joined.nesting.inner.map SimpleName.text := by
      rw [inside.inner]
      exact List.mem_append_right _ (List.mem_singleton_self _)
    obtain ⟨part, _, rfl⟩ := List.mem_map.1 isPart
    refine ⟨fun dollar => ?_, slash_not_mem_of_isSimpleText part.valid⟩
    exact notDollar (Option.some.inj (ends.symm.trans dollar))
  · rintro ⟨ends, noSlash⟩
    let part : SimpleName := ⟨simple, isSimpleText_of_joined joins noSlash⟩
    have isWithin : joined = parent.within part := by
      apply ext_text
      apply String.toList_injective
      rw [text, toList_within]
      simp [part]
    have divided : (parent.within part).nesting = _ := nesting_within ends noDollar
    rw [← isWithin] at divided
    rw [inside_iff_path, path, path, divided, List.map_append]
    rfl

/-- Joining and taking the class around are inverse to each other where the `$` between the parts separates
classes. -/
theorem inside_iff_joined :
    (∀ (parent : ClassName) (simple : String) (joined : ClassName), parent.joinInner simple = .ok joined →
      (joined.Inside parent simple
        ↔ parent.text.toList.getLast? ≠ some '$' ∧ '/' ∉ simple.toList))
      ∧ ∀ (name : ClassName) (last : SimpleName), name.nesting.inner.getLast? = some last →
        '$' ∉ last.text.toList →
          ∃ parent, name.parent? = some parent ∧ parent.joinInner last.text = .ok name := by
  refine ⟨fun _ _ _ joins => inside_iff_of_joined joins, fun name last isLast noDollar => ?_⟩
  have nested : name.isInner = true := by
    rw [isInner, Bool.not_eq_true', List.isEmpty_eq_false_iff]
    intro isTop
    simp [isTop] at isLast
  obtain ⟨parent, isParent⟩ := exists_parent? nested
  have isKey : name.key = last.text := by rw [key, isLast]
  have inside : name.Inside parent last.text :=
    inside_iff_path.2 (isKey ▸ path_of_parent? isParent)
  have nonempty := (isSimpleText_iff.1 last.valid).1
  exact ⟨parent, isParent, joinInner_eq_ok.2 ⟨nonempty, noDollar, inside.text⟩⟩

/-- A class inside of a test class, joined and taken apart again; and one that is no longer inside of the
class it was joined to. -/
theorem inside_testTarget :
    ∃ target inner odd flat : ClassName, target.text = "net/example/TestTarget" ∧ odd.text = "a$"
      ∧ target.joinInner "Inner" = .ok inner ∧ inner.Inside target "Inner"
      ∧ (∃ parent, inner.parent? = some parent ∧ parent.joinInner "Inner" = .ok inner)
      ∧ odd.joinInner "b" = .ok flat ∧ ¬flat.Inside odd "b" := by
  let target : ClassName := ⟨"net/example/TestTarget", by decide +kernel⟩
  let inner : ClassName := ⟨"net/example/TestTarget$Inner", by decide +kernel⟩
  let odd : ClassName := ⟨"a$", by decide +kernel⟩
  let flat : ClassName := ⟨"a$$b", by decide +kernel⟩
  have joined : target.joinInner "Inner" = .ok inner := by decide +kernel
  have flatJoined : odd.joinInner "b" = .ok flat := by decide +kernel
  have again :=
    inside_iff_joined.2 inner ⟨"Inner", by decide +kernel⟩ (by decide +kernel) (by decide +kernel)
  have inside := (inside_iff_joined.1 target "Inner" inner joined).2 ⟨by decide +kernel, by decide +kernel⟩
  have outside : ¬flat.Inside odd "b" := fun inside =>
    ((inside_iff_joined.1 odd "b" flat flatJoined).1 inside).1 (by decide +kernel)
  exact ⟨target, inner, odd, flat, rfl, rfl, joined, inside, again, flatJoined, outside⟩

end ClassName

end MixinLink
