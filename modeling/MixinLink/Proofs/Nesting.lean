import MixinLink.Name.Nesting

/-!
# Dividing class names and putting them together

A class name is divided into a top level class and the simple names that lead into it. Putting these
together again gives the name. Every class on the way from the top level class to the nested one is
divided in the same way, only earlier: a `$` that separates classes stands after a character other than
`$`, so cutting a name off in front of it makes no `$` before it separate less or more.

Main exports: `Nesting.name`, `ClassName.name_nesting`, `ClassName.nesting_take`,
`ClassName.path_injective`, `ClassName.path_of_trail`.
-/

namespace MixinLink

/-! ## Pieces of a text -/

/-- A text that is not cut right at its beginning starts like its first piece. -/
theorem head?_cutNested {plain : Bool} {text : List Char}
    (start : startsPlain text = true ∨ plain = false) :
    (cutNested plain text).1.head? = text.head? := by
  cases text with
  | nil => rfl
  | cons c rest =>
      simp only [cutNested]
      split
      · rename_i separates
        simp only [Bool.and_eq_true, decide_eq_true_eq] at separates
        rcases start with plainStart | notPlain
        · simp [startsPlain, separates.1.2] at plainStart
        · simp [notPlain] at separates
      · rfl

/-- Whether a text starts with a character other than `$` is not changed by leaving out pieces at its
end. -/
theorem startsPlain_joinPieces_take (plain : Bool) {text : List Char}
    (start : startsPlain text = true ∨ plain = false) (count : Nat) :
    startsPlain (joinPieces (cutNested plain text).1 ((cutNested plain text).2.take count))
      = startsPlain text := by
  have sameHead := head?_cutNested start
  cases text with
  | nil => simp [cutNested]
  | cons c rest =>
      cases first : (cutNested plain (c :: rest)).1 with
      | nil => simp [first] at sameHead
      | cons d others =>
          simp only [first, List.head?_cons, Option.some.injEq] at sameHead
          simp [joinPieces, startsPlain, sameHead]

/-- A text without the pieces at its end is cut like the text. -/
theorem cutNested_take (plain : Bool) (text : List Char) (count : Nat) :
    cutNested plain (joinPieces (cutNested plain text).1 ((cutNested plain text).2.take count))
      = ((cutNested plain text).1, (cutNested plain text).2.take count) := by
  induction text generalizing plain count with
  | nil => simp [cutNested]
  | cons c rest ih =>
      by_cases separates : (plain && decide (c = '$') && startsPlain rest) = true
      · have cut : cutNested plain (c :: rest)
            = ([], (cutNested (c ≠ '$') rest).1 :: (cutNested (c ≠ '$') rest).2) := by
          simp only [cutNested, separates, if_true]
        rw [cut]
        cases count with
        | zero => simp [cutNested]
        | succ count =>
            have inner := ih (c ≠ '$') count
            have start := separates
            simp only [Bool.and_eq_true, decide_eq_true_eq] at start
            have sameStart := startsPlain_joinPieces_take (c ≠ '$') (.inl start.2) count
            simp only [List.take_succ_cons, joinPieces_cons, List.nil_append]
            obtain ⟨⟨isPlain, rfl⟩, restPlain⟩ := start
            simp only [cutNested, sameStart, inner]
            simp [isPlain, restPlain]
      · have cut : cutNested plain (c :: rest)
            = (c :: (cutNested (c ≠ '$') rest).1, (cutNested (c ≠ '$') rest).2) := by
          simp only [cutNested, separates, if_false, Bool.false_eq_true]
        have inner := ih (c ≠ '$') count
        have shifted := joinPieces_append [c] (cutNested (c ≠ '$') rest).1
          ((cutNested (c ≠ '$') rest).2.take count)
        rw [cut]
        simp only [List.singleton_append] at shifted
        rw [shifted]
        -- only a `$` can separate, and after a `$` the rest is cut without regard to what precedes it
        have still : ¬ (plain && decide (c = '$') && startsPlain (joinPieces
            (cutNested (c ≠ '$') rest).1 ((cutNested (c ≠ '$') rest).2.take count))) = true := by
          by_cases dollar : c = '$'
          · rw [startsPlain_joinPieces_take _ (.inr (by simp [dollar]))]
            exact separates
          · simp [dollar]
        simp only [cutNested, still, if_false, Bool.false_eq_true, inner]

/-- Texts with dollars between them are joined pieces. -/
theorem toList_intercalate_dollar (first : String) (rest : List String) :
    ("$".intercalate (first :: rest)).toList = joinPieces first.toList (rest.map String.toList) := by
  induction rest generalizing first with
  | nil => simp
  | cons second rest ih =>
      rw [String.intercalate_cons_cons, List.map_cons, joinPieces_cons]
      simp [ih]

/-- Apart from the `$` between the texts, every character comes from one of them. -/
theorem mem_intercalate_dollar {c : Char} (notDollar : c ≠ '$') {texts : List String} :
    c ∈ ("$".intercalate texts).toList ↔ ∃ text ∈ texts, c ∈ text.toList := by
  induction texts with
  | nil => simp
  | cons first rest ih =>
      cases rest with
      | nil => simp
      | cons second rest =>
          rw [String.intercalate_cons_cons, String.toList_append, String.toList_append,
            List.mem_append, List.mem_append, ih]
          simp [notDollar]

/-! ## Nestings and the names they come from -/

/-- A text without `/` behind a package is divided into the package and the text. -/
theorem splitPackage_package_append {text part : List Char} (noSlash : '/' ∉ part) :
    splitPackage ((splitPackage text).1 ++ part) = ((splitPackage text).1, part) := by
  unfold splitPackage
  cases found : Text.splitLast? '/' text with
  | none => simp [Text.splitLast?_eq_none.2 noSlash]
  | some parts =>
      have again := Text.splitLast?_append parts.1 noSlash
      simp only [List.append_assoc, List.singleton_append, again]

/-- The name of the class that the simple names lead to. -/
def Nesting.name (nesting : Nesting) : ClassName :=
  nesting.inner.foldl ClassName.within nesting.top

/-- The parts of a name determine how it is nested. -/
theorem Nesting.ext_parts {a b : Nesting} (top : a.top = b.top) (inner : a.inner = b.inner) : a = b := by
  cases a; cases b; cases top; cases inner; rfl

/-- Simple names with the same text are the same. -/
theorem SimpleName.ext_text {a b : SimpleName} (same : a.text = b.text) : a = b := by
  cases a; cases b; cases same; rfl

namespace ClassName

/-- The name of a nested class comes after a dollar. -/
theorem toList_within (parent : ClassName) (simple : SimpleName) :
    (parent.within simple).text.toList = parent.text.toList ++ '$' :: simple.text.toList := by
  simp [within]

/-- Several nested classes, one in the other. -/
theorem toList_foldl_within (top : ClassName) (inner : List SimpleName) :
    (inner.foldl within top).text.toList
      = joinPieces top.text.toList (inner.map (·.text.toList)) := by
  induction inner generalizing top with
  | nil => simp
  | cons simple rest ih =>
      rw [List.foldl_cons, ih, toList_within, List.map_cons, joinPieces_cons,
        ← List.singleton_append, ← List.append_assoc, joinPieces_append]
      simp

/-- The outermost class is what comes before the first separating dollar. -/
theorem toList_nesting_top (name : ClassName) :
    name.nesting.top.text.toList
      = (splitPackage name.text.toList).1 ++ (cutNested false (splitPackage name.text.toList).2).1 := by
  simp [nesting]

/-- The nested classes are what comes between the separating dollars. -/
theorem toList_nesting_inner (name : ClassName) :
    name.nesting.inner.map (·.text.toList) = (cutNested false (splitPackage name.text.toList).2).2 := by
  simp [nesting, Function.comp_def]

/-- The parts of a name put together give the name. -/
@[simp]
theorem name_nesting (name : ClassName) : name.nesting.name = name := by
  apply ext_text
  apply String.toList_injective
  rw [Nesting.name, toList_foldl_within, ← toList_eq_joinPieces]

/-- A nesting is determined by the texts of its parts. -/
theorem nesting_eq {name : ClassName} {nesting : Nesting}
    (top : (splitPackage name.text.toList).1 ++ (cutNested false (splitPackage name.text.toList).2).1
      = nesting.top.text.toList)
    (inner : (cutNested false (splitPackage name.text.toList).2).2
      = nesting.inner.map (·.text.toList)) :
    name.nesting = nesting := by
  have sameTop : name.nesting.top = nesting.top := by
    apply ext_text
    apply String.toList_injective
    rw [toList_nesting_top, top]
  have sameInner : name.nesting.inner = nesting.inner := by
    have texts := toList_nesting_inner name
    rw [inner] at texts
    refine (List.map_inj_right fun a b same => ?_).1 texts
    exact SimpleName.ext_text (String.toList_injective same)
  exact Nesting.ext_parts sameTop sameInner

/-- There is no slash after the package. -/
theorem noSlash_unpackaged (name : ClassName) :
    '/' ∉ (splitPackage name.text.toList).2 :=
  slash_not_mem_of_isSimpleText (isSimpleText_last name.valid)

/-- A class on the way to a nested class is divided like the nested class, as far as it goes. -/
theorem nesting_take (name : ClassName) (count : Nat) :
    (Nesting.mk name.nesting.top (name.nesting.inner.take count)).name.nesting
      = ⟨name.nesting.top, name.nesting.inner.take count⟩ := by
  have cut := cutNested_take false (splitPackage name.text.toList).2 count
  have text : (Nesting.mk name.nesting.top (name.nesting.inner.take count)).name.text.toList
      = (splitPackage name.text.toList).1 ++ joinPieces
          (cutNested false (splitPackage name.text.toList).2).1
          ((cutNested false (splitPackage name.text.toList).2).2.take count) := by
    rw [Nesting.name, toList_foldl_within, List.map_take, toList_nesting_top, toList_nesting_inner,
      joinPieces_append]
  have noSlash : '/' ∉ joinPieces (cutNested false (splitPackage name.text.toList).2).1
      ((cutNested false (splitPackage name.text.toList).2).2.take count) := by
    intro slash
    apply noSlash_unpackaged name
    rw [← joinPieces_cutNested false (splitPackage name.text.toList).2]
    simp only [joinPieces, List.mem_append, List.mem_flatMap] at slash ⊢
    rcases slash with inFirst | ⟨piece, taken, inside⟩
    · exact .inl inFirst
    · exact .inr ⟨piece, List.mem_of_mem_take taken, inside⟩
  apply nesting_eq
  · rw [text, splitPackage_package_append noSlash, cut, toList_nesting_top]
  · rw [text, splitPackage_package_append noSlash, cut, List.map_take, toList_nesting_inner]

/-! ## Paths and trails -/

private theorem nesting_name_eq {name : ClassName} {nesting : Nesting} (same : name.nesting = nesting) :
    name = nesting.name := by
  rw [← same, name_nesting]

/-- The keys on the way to a class, with `$` between them, are its name. -/
theorem text_eq_intercalate_path (name : ClassName) : name.text = "$".intercalate name.path := by
  apply String.toList_injective
  have whole : name.text = name.nesting.name.text := by rw [name_nesting]
  rw [whole, Nesting.name, toList_foldl_within, path, toList_intercalate_dollar, List.map_map]
  rfl

/-- The keys of a class determine the class. -/
theorem path_injective {a b : ClassName} (same : a.path = b.path) : a = b := by
  simp only [path, List.cons.injEq] at same
  have sameTop : a.nesting.top = b.nesting.top := ext_text same.1
  have sameInner : a.nesting.inner = b.nesting.inner :=
    (List.map_inj_right fun _ _ => SimpleName.ext_text).1 same.2
  rw [nesting_name_eq (Nesting.ext_parts sameTop sameInner), name_nesting]

/-- Every class has a path. -/
theorem path_ne_nil (name : ClassName) : name.path ≠ [] := by
  simp [path]

/-- The keys on the way into nested classes are their simple names. -/
theorem keys_trailFrom {name : ClassName} {length : Nat} {inner : List SimpleName}
    (leads : name.LeadsInto length inner) :
    (name.trailFrom length inner leads).map Prod.fst = inner.map SimpleName.text := by
  induction inner generalizing length with
  | nil => rfl
  | cons simple rest ih => simp [trailFrom, ih]

/-- The keys of the trail to a class are its path. -/
theorem keys_trail (name : ClassName) : name.trail.map Prod.fst = name.path := by
  simp [trail, path, keys_trailFrom]

private theorem toList_upTo_next {name : ClassName} {length : Nat} {simple : SimpleName}
    {inner : List SimpleName} (leads : name.LeadsInto length (simple :: inner)) :
    (name.upTo (length + 1 + simple.text.length) leads.next.valid).text.toList
      = (name.upTo length leads.valid).text.toList ++ '$' :: simple.text.toList := by
  have size : ('$' :: simple.text.toList).length = 1 + simple.text.length := by
    rw [List.length_cons, String.length_toList, Nat.add_comm]
  rw [upTo, upTo, String.toList_ofList, String.toList_ofList, Nat.add_assoc, List.take_add, leads.rest,
    List.flatMap_cons, ← size, List.take_left]

/-- Going on to the next separating `$` is entering the class of the next simple name. -/
theorem upTo_next {name : ClassName} {length : Nat} {simple : SimpleName} {inner : List SimpleName}
    (leads : name.LeadsInto length (simple :: inner)) :
    name.upTo (length + 1 + simple.text.length) leads.next.valid
      = (name.upTo length leads.valid).within simple := by
  apply ext_text
  apply String.toList_injective
  rw [toList_upTo_next leads, toList_within]

/-- What stands somewhere on the way into nested classes: the simple name there, and the class that the
simple names up to there lead to. -/
theorem trailFrom_split {whole name : ClassName} {length : Nat} {inner : List SimpleName}
    {leads : whole.LeadsInto length inner} {key : String} {before after : List (String × ClassName)}
    (split : whole.trailFrom length inner leads = before ++ (key, name) :: after) :
    ∃ done simple todo, inner = done ++ simple :: todo ∧ before.map Prod.fst = done.map SimpleName.text
      ∧ key = simple.text ∧ name = (done ++ [simple]).foldl within (whole.upTo length leads.valid) := by
  induction inner generalizing length before with
  | nil => simp [trailFrom] at split
  | cons first rest ih =>
      cases before with
      | nil =>
          simp only [trailFrom, List.nil_append, List.cons.injEq, Prod.mk.injEq] at split
          obtain ⟨⟨rfl, rfl⟩, _⟩ := split
          exact ⟨[], first, rest, rfl, rfl, rfl, upTo_next leads⟩
      | cons entry before =>
          simp only [trailFrom, List.cons_append, List.cons.injEq] at split
          obtain ⟨rfl, later⟩ := split
          obtain ⟨done, simple, todo, rfl, keys, rfl, named⟩ := ih later
          refine ⟨first :: done, simple, todo, rfl, ?_, rfl, ?_⟩
          · simp [keys]
          · simpa [upTo_next leads] using named

private theorem upTo_top (name : ClassName) :
    name.upTo name.nesting.top.text.length name.leadsInto_inner.valid = name.nesting.top := by
  apply ext_text
  apply String.toList_injective
  rw [upTo, String.toList_ofList, toList_eq_joinPieces, joinPieces, ← String.length_toList, List.take_left]

/-- A class on the trail to another class is stored under the keys up to it. -/
theorem path_of_trail {whole name : ClassName} {key : String}
    {before after : List (String × ClassName)} (split : whole.trail = before ++ (key, name) :: after) :
    name.path = before.map Prod.fst ++ [key] := by
  cases before with
  | nil =>
      simp only [trail, List.nil_append, List.cons.injEq, Prod.mk.injEq] at split
      obtain ⟨⟨rfl, rfl⟩, _⟩ := split
      have divided := nesting_take whole 0
      simp only [List.take_zero, Nesting.name, List.foldl_nil] at divided
      simp [path, divided]
  | cons entry before =>
      simp only [trail, List.cons_append, List.cons.injEq] at split
      obtain ⟨rfl, later⟩ := split
      obtain ⟨done, simple, todo, inner, keys, rfl, rfl⟩ := trailFrom_split later
      rw [upTo_top]
      have taken : whole.nesting.inner.take (done.length + 1) = done ++ [simple] := by
        rw [inner, ← List.singleton_append, ← List.append_assoc]
        exact List.take_left' (by simp)
      have divided := nesting_take whole (done.length + 1)
      rw [taken] at divided
      simp only [Nesting.name] at divided
      rw [path, divided]
      simp [keys]

/-- A class that is not nested is its own outermost class. -/
theorem nesting_top_of_inner_eq_nil {name : ClassName} (isTop : name.nesting.inner = []) :
    name.nesting.top = name := by
  have whole := name_nesting name
  rwa [Nesting.name, isTop, List.foldl_nil] at whole

/-- The last key on the path to a class is its own. -/
theorem getLast?_path (name : ClassName) : name.path.getLast? = some name.key := by
  unfold path key
  cases last : name.nesting.inner.getLast? with
  | none =>
      have isTop := List.getLast?_eq_none_iff.1 last
      simp [isTop, nesting_top_of_inner_eq_nil isTop]
  | some simple =>
      simp [List.getLast?_cons, List.getLast?_map, last]

/-- On the trail to a class, every class stands with its own key. -/
theorem key_of_trail {whole name : ClassName} {key : String}
    {before after : List (String × ClassName)} (split : whole.trail = before ++ (key, name) :: after) :
    key = name.key := by
  have last := getLast?_path name
  rw [path_of_trail split] at last
  simpa using last

/-- The class is nested exactly if its path has more than one key. -/
theorem isInner_iff_length_path {name : ClassName} : name.isInner = true ↔ 1 < name.path.length := by
  cases inner : name.nesting.inner <;> simp [isInner, path, inner]

/-- The class around a nested class is the one that all simple names but the last lead to. -/
theorem parent?_eq (name : ClassName) :
    name.parent?
      = if name.isInner then some (name.nesting.inner.dropLast.foldl within name.nesting.top) else none := by
  unfold parent? isInner
  split
  · rename_i none
    simp [List.getLast?_eq_none_iff.1 none]
  · rename_i last isLast
    obtain ⟨around, inner⟩ := List.getLast?_eq_some_iff.1 isLast
    let parent := around.foldl within name.nesting.top
    have whole : name.text.toList = parent.text.toList ++ '$' :: last.text.toList := by
      have led : name = parent.within last := by
        rw [← name_nesting name, Nesting.name, inner, List.foldl_append]
        rfl
      rw [← toList_within, ← led]
    have size : name.text.length - last.text.length - 1 = parent.text.toList.length := by
      rw [← String.length_toList, whole, List.length_append, List.length_cons, String.length_toList,
        String.length_toList]
      omega
    have leading : name.nesting.inner.dropLast = around := by rw [inner, List.dropLast_concat]
    rw [leading, if_pos (by simp [inner]), Option.some.injEq]
    apply ext_text
    apply String.toList_injective
    rw [upTo, String.toList_ofList, size, whole, List.take_left]

/-- A nested class has a class around it. -/
theorem exists_parent? {name : ClassName} (nested : name.isInner = true) :
    ∃ parent, name.parent? = some parent :=
  ⟨_, (parent?_eq name).trans (if_pos nested)⟩

end ClassName

end MixinLink
