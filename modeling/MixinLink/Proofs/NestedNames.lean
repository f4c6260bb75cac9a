import MixinLink.Proofs.BlockReading
import MixinLink.Proofs.SameTables

/-!
# Mapped names of nested classes

The mapped name of a nested class is that of the class around it, `$`, and its own mapped name. If the
own name has no `$` and the name around it does not end with one, then this `$` separates classes, and
the own name can be read off the whole again. Otherwise it may not: `T$` around `x` makes the top level
name `T$$x`.

Main exports: `ClassName.nesting_within`, `ClassName.nestedInduction`,
`Table.mapClass_congr`, `Table.MapsByParts`, `Table.mapsByParts_of_reachable`, `ClassEntry.PlainMapped`,
`Table.Sound.storedPart_mapClass`.
-/

namespace MixinLink

/-! ## One more `$` -/

private theorem cutNested_of_not_mem {text : List Char} (plain : Bool) (noDollar : '$' ∉ text) :
    cutNested plain text = (text, []) := by
  induction text generalizing plain with
  | nil => rfl
  | cons c rest ih =>
      simp only [List.mem_cons, not_or] at noDollar
      simp [cutNested, ih _ noDollar.2, Ne.symm noDollar.1]

/-- A `$` behind a text that does not end with `$`, and before a text without `$`, adds a piece. -/
theorem cutNested_append_dollar {text piece : List Char} (plain : Bool)
    (ends : text.getLast? ≠ some '$') (start : text = [] → plain = true) (nonempty : piece ≠ [])
    (noDollar : '$' ∉ piece) :
    cutNested plain (text ++ '$' :: piece)
      = ((cutNested plain text).1, (cutNested plain text).2 ++ [piece]) := by
  induction text generalizing plain with
  | nil =>
      have startsPiece : startsPlain piece = true := by
        cases piece with
        | nil => exact absurd rfl nonempty
        | cons c rest => simpa [startsPlain] using Ne.symm (List.ne_of_not_mem_cons noDollar)
      simp [cutNested, start rfl, startsPiece, cutNested_of_not_mem _ noDollar]
  | cons c rest ih =>
      -- the last character is no `$`, so no other `$` separates more or less
      have before : rest = [] → c ≠ '$' := by
        rintro rfl
        simpa using ends
      have restEnds : rest.getLast? ≠ some '$' := by
        cases rest with
        | nil => simp
        | cons => simpa using ends
      have separates : (plain && decide (c = '$') && startsPlain (rest ++ '$' :: piece))
          = (plain && decide (c = '$') && startsPlain rest) := by
        cases rest with
        | nil => simp [before rfl]
        | cons => rfl
      have later := ih (c ≠ '$') restEnds fun none => decide_eq_true (before none)
      simp only [List.cons_append, cutNested, separates, later]
      split
      · rfl
      · rfl

namespace ClassName

/-- A simple name without `$` inside of a class whose name does not end with `$` is divided off again. -/
theorem nesting_within {parent : ClassName} {simple : SimpleName}
    (ends : parent.text.toList.getLast? ≠ some '$') (noDollar : '$' ∉ simple.text.toList) :
    (parent.within simple).nesting = ⟨parent.nesting.top, parent.nesting.inner ++ [simple]⟩ := by
  have parentSimple := isSimpleText_last parent.valid
  have nonempty := (isSimpleText_iff.1 parentSimple).1
  have noSlash := slash_not_mem_of_isSimpleText (isSimpleText_append_dollar parentSimple simple.valid)
  have split : splitPackage (parent.within simple).text.toList
      = ((splitPackage parent.text.toList).1,
        (splitPackage parent.text.toList).2 ++ '$' :: simple.text.toList) := by
    rw [← splitPackage_package_append noSlash, ← List.append_assoc, splitPackage_append, toList_within]
  have lastEnds : (splitPackage parent.text.toList).2.getLast? ≠ some '$' := by
    rw [← splitPackage_append parent.text.toList, List.getLast?_append_of_ne_nil _ nonempty] at ends
    exact ends
  have cut := cutNested_append_dollar false lastEnds (fun none => absurd none nonempty)
    (isSimpleText_iff.1 simple.valid).1 noDollar
  apply nesting_eq
  · rw [split, cut, toList_nesting_top]
  · rw [split, cut, List.map_append, toList_nesting_inner, List.map_singleton]

private theorem lastPart_within {parent : ClassName} {simple : SimpleName}
    (ends : parent.text.toList.getLast? ≠ some '$') (noDollar : '$' ∉ simple.text.toList) :
    (parent.within simple).lastPart = simple.text := by
  rw [lastPart, nesting_within ends noDollar, List.getLast?_concat]

/-! ## From the outside to the inside -/

private theorem path_of_top {name : ClassName} (isTop : name.isInner = false) : name.path = [name.key] := by
  have noInner : name.nesting.inner = [] := by simpa [isInner] using isTop
  simp [path, key, noInner, nesting_top_of_inner_eq_nil noInner]

/-- The path of a class is that of the class around it, with one more key. -/
theorem path_of_parent? {name parent : ClassName} (around : name.parent? = some parent) :
    name.path = parent.path ++ [name.key] := by
  rw [parent?_eq] at around
  split at around
  · rename_i nested
    cases around
    have inner : name.nesting.inner ≠ [] := by simpa [isInner] using nested
    have divided := nesting_take name (name.nesting.inner.length - 1)
    rw [← List.dropLast_eq_take, Nesting.name] at divided
    have last : name.key = (name.nesting.inner.getLast inner).text := by
      rw [key, List.getLast?_eq_some_getLast inner]
    rw [path, path, divided, last, List.cons_append, ← List.map_singleton, ← List.map_append,
      List.dropLast_concat_getLast]
  · cases around

private theorem exists_parent {name : ClassName} (nested : name.isInner = true) :
    ∃ parent : ClassName, name.path = parent.path ++ [name.key] :=
  (exists_parent? nested).imp fun _ => path_of_parent?

/-- What holds of top level classes, and of a class inside of one of which it holds, holds of every
class. -/
theorem nestedInduction {motive : ClassName → Prop} (top : ∀ name, name.path = [name.key] → motive name)
    (nested : ∀ parent name, name.path = parent.path ++ [name.key] → motive parent → motive name)
    (name : ClassName) : motive name := by
  induction size : name.path.length generalizing name with
  | zero => exact absurd (List.length_eq_zero_iff.1 size) name.path_ne_nil
  | succ count ih =>
      cases isNested : name.isInner with
      | false => exact top name (path_of_top isNested)
      | true =>
          obtain ⟨parent, path⟩ := exists_parent isNested
          refine nested parent name path (ih parent ?_)
          simpa [path] using size

end ClassName

/-! ## Mapped names part by part -/

private theorem ClassForest.mappedPath_concat (forest : ClassForest) (keys : List String) (key : String) :
    forest.mappedPath (keys ++ [key])
      = forest.mappedPath keys
        ++ [((forest.entryAt? (keys ++ [key])).map ClassEntry.mapped).getD key] := by
  induction forest generalizing keys with
  | nil => simp [mappedPath]
  | cons first entry inner rest innerIh restIh =>
      rcases keys with _ | ⟨k, _ | ⟨next, ks⟩⟩
      · have later := restIh []
        by_cases same : first = key
        · simp [mappedPath, entryAt?_cons_single, same, mappedPath_nil]
        · simpa [mappedPath, entryAt?_cons_single, same, mappedPath_nil] using later
      · have inside := innerIh []
        have later := restIh [k]
        by_cases same : first = k
        · simpa [mappedPath, entryAt?_cons_cons, same, mappedPath_nil] using inside
        · simpa [mappedPath, entryAt?_cons_cons, same] using later
      · have inside := innerIh (next :: ks)
        have later := restIh (k :: next :: ks)
        by_cases same : first = k
        · simpa [mappedPath, entryAt?_cons_cons, same] using inside
        · simpa [mappedPath, entryAt?_cons_cons, same] using later

/-- The last text comes after a dollar. -/
theorem intercalate_dollar_concat {texts : List String} (nonempty : texts ≠ []) (last : String) :
    "$".intercalate (texts ++ [last]) = "$".intercalate texts ++ "$" ++ last := by
  induction texts with
  | nil => exact absurd rfl nonempty
  | cons first rest ih =>
      cases rest with
      | nil => simp
      | cons second rest =>
          have later := ih (List.cons_ne_nil _ _)
          simp only [List.cons_append, String.intercalate_cons_cons] at later ⊢
          rw [later]
          simp only [String.append_assoc]

namespace Table

variable {table : Table} {name parent : ClassName}

private theorem mappedText_of_top (path : name.path = [name.key]) :
    table.mappedText name = (table.entryOf name).mapped := by
  have whole := table.classes.mappedPath_concat [] name.key
  rw [List.nil_append, ← path, ← find?_eq_entryAt?, ClassForest.mappedPath_nil, List.nil_append] at whole
  rw [mappedText, whole, entryOf]
  cases table.find? name with
  | none => simp [ClassEntry.fresh]
  | some entry => simp

private theorem mappedText_of_nested (path : name.path = parent.path ++ [name.key]) :
    table.mappedText name = table.mappedText parent ++ "$" ++ (table.entryOf name).mapped := by
  have whole := table.classes.mappedPath_concat parent.path name.key
  rw [← path, ← find?_eq_entryAt?] at whole
  have nonempty : table.classes.mappedPath parent.path ≠ [] := by
    rw [ClassName.path, ClassForest.mappedPath_below]
    split
    · exact List.cons_ne_nil _ _
    · exact List.cons_ne_nil _ _
  rw [mappedText, whole, intercalate_dollar_concat nonempty, mappedText, entryOf]
  cases table.find? name with
  | none => rfl
  | some entry => rfl

/-- Tables in which all classes have the same own names map all classes alike. -/
theorem mapClass_congr {first second : Table}
    (same : ∀ name, (first.entryOf name).mapped = (second.entryOf name).mapped) (name : ClassName) :
    first.mapClass name = second.mapClass name := by
  have texts : first.mappedText name = second.mappedText name := by
    induction name using ClassName.nestedInduction with
    | top name path => rw [mappedText_of_top path, mappedText_of_top path, same]
    | nested parent name path ih => rw [mappedText_of_nested path, mappedText_of_nested path, ih, same]
  rw [mapClass_eq, mapClass_eq, texts]

/-! ## The mapped name of every class -/

private theorem find?_nesting_top (table : Table) (name : ClassName) :
    table.find? name.nesting.top = (table.topNode? name.nesting.top).map Prod.fst := by
  have alone : name.nesting.top.nesting = ⟨name.nesting.top, []⟩ := name.nesting_take 0
  have path : name.nesting.top.path = [name.nesting.top.text] := by simp [ClassName.path, alone]
  rw [find?, node?, path]
  rfl

/-- A class is not mapped exactly if its top level class has no entry. -/
theorem mapClass?_of_mapClass {mapped : ClassName} (maps : table.mapClass name = .ok mapped) :
    table.mapClass? name = .ok ((table.find? name.nesting.top).map fun _ => mapped) := by
  rw [find?_nesting_top, mapClass?]
  cases table.topNode? name.nesting.top with
  | none => rfl
  | some node =>
      simp only [ClassName.parse_eq_ok.2 (mapClass_eq_ok.1 maps)]
      rfl

private theorem mapped_entryOf (table : Table) (name : ClassName) :
    (table.entryOf name).mapped = ((table.find? name).map ClassEntry.mapped).getD name.key := by
  rw [entryOf]
  cases table.find? name with
  | none => rfl
  | some entry => rfl

/-- The mapped name of a class is put together along its nesting. -/
structure MapsByParts (table : Table) (name : ClassName) : Prop where
  /-- There is always an answer, and it is that there is no mapped name exactly if the top level class has no
  entry. -/
  answered : ∃ answer, table.mapClass? name = .ok answer
    ∧ (answer = none ↔ table.find? name.nesting.top = none)
  /-- A top level class has the mapped name of its entry, or keeps its name. -/
  ofTop : name.isInner = false → ∃ mapped, table.mapClass name = .ok mapped
    ∧ mapped.text = ((table.find? name).map ClassEntry.mapped).getD name.text
  /-- A nested class has the mapped name of the class around it, followed by the mapped name of its entry or
  else the last part of its name. -/
  ofNested : name.isInner = true → ∃ parent last outer mapped, name.parent? = some parent
    ∧ name.nesting.inner.getLast? = some last
    ∧ table.mapClass parent = .ok outer ∧ table.mapClass name = .ok mapped
    ∧ mapped.text = outer.text ++ "$" ++ ((table.find? name).map ClassEntry.mapped).getD last.text

/-- Every class is mapped part by part, however deep it is nested and whichever of its parts have entries. -/
theorem mapsByParts_of_reachable (reachable : table.Reachable) (name : ClassName) :
    table.MapsByParts name := by
  obtain ⟨mapped, maps⟩ := reachable.sound.exists_mapClass name
  have text := mapClass_eq_ok.1 maps
  refine ⟨⟨_, mapClass?_of_mapClass maps, Option.map_eq_none_iff⟩, fun isTop => ?_, fun isNested => ?_⟩
  · have inner : name.nesting.inner = [] := by simpa [ClassName.isInner] using isTop
    have key : name.key = name.text := by simp [ClassName.key, inner]
    rw [mappedText_of_top (ClassName.path_of_top isTop), mapped_entryOf, key] at text
    exact ⟨mapped, maps, text⟩
  · obtain ⟨parent, isParent⟩ := ClassName.exists_parent? isNested
    obtain ⟨outer, outerMaps⟩ := reachable.sound.exists_mapClass parent
    have inner : name.nesting.inner ≠ [] := by simpa [ClassName.isInner] using isNested
    have last := List.getLast?_eq_some_getLast inner
    have key : name.key = (name.nesting.inner.getLast inner).text := by rw [ClassName.key, last]
    rw [mappedText_of_nested (ClassName.path_of_parent? isParent), mapped_entryOf, key,
      ← mapClass_eq_ok.1 outerMaps] at text
    exact ⟨parent, _, outer, mapped, isParent, last, outerMaps, maps, text⟩

/-- The innermost part has no entry and stays. -/
theorem mapsByParts_partly_mapped :
    ∃ (table : Table) (name : ClassName), name.text = "hj$a$b" ∧ table.Reachable ∧ table.MapsByParts name
      ∧ (table.mapClass name).toOption.map ClassName.text = some "net/example/TestTarget$Inner$b" := by
  let outer : ClassName := ⟨"hj", by decide +kernel⟩
  let inner : ClassName := ⟨"hj$a", by decide +kernel⟩
  let operations : List Operation :=
    [.createClass inner, .renameClass outer "net/example/TestTarget", .renameClass inner "Inner"]
  let table := operations.foldl Operation.apply (.empty .standard)
  have reachable : table.Reachable := (Reachable.empty .standard).run operations
  exact ⟨table, ⟨"hj$a$b", by decide +kernel⟩, rfl, reachable, mapsByParts_of_reachable reachable _,
    by decide +kernel⟩

end Table

/-! ## Own names that can be read off -/

/-- The mapped name does not spoil the `$` that separate classes. -/
def ClassEntry.PlainMapped (entry : ClassEntry) : Prop :=
  if entry.name.isInner then '$' ∉ entry.mapped.toList else entry.mapped.toList.getLast? ≠ some '$'

instance (entry : ClassEntry) : Decidable entry.PlainMapped :=
  inferInstanceAs (Decidable
    (if entry.name.isInner then '$' ∉ entry.mapped.toList else entry.mapped.toList.getLast? ≠ some '$'))

namespace Table.Sound

variable {table : Table} {name : ClassName} {entry : ClassEntry}

private theorem mapped_ne_nil (sound : table.Sound) (found : table.find? name = some entry) :
    entry.mapped.toList ≠ [] := by
  intro empty
  have valid := (sound.soundAt found).mapped
  rw [ClassEntry.MappedValid, empty] at valid
  split at valid
  · exact absurd valid (by decide)
  · exact absurd valid (by decide)

/-- A mapped name ends like the own name of the class. -/
theorem getLast?_mappedText (sound : table.Sound) (found : table.find? name = some entry) :
    (table.mappedText name).toList.getLast? = entry.mapped.toList.getLast? := by
  have nonempty := sound.mapped_ne_nil found
  have own := entryOf_of_find? found
  cases isNested : name.isInner with
  | false => rw [mappedText_of_top (ClassName.path_of_top isNested), own]
  | true =>
      obtain ⟨parent, path⟩ := ClassName.exists_parent isNested
      rw [mappedText_of_nested path, own, String.toList_append, List.getLast?_append_of_ne_nil _ nonempty]

/-- If no mapped name is in the way, the own name of a class is what is read off its whole name. -/
theorem storedPart_mapClass (sound : table.Sound)
    (plain : table.classes.All (fun _ entry => entry.PlainMapped) []) {mapped : ClassName}
    (found : table.find? name = some entry) (maps : table.mapClass name = .ok mapped) :
    Tiny.storedPart name mapped = entry.mapped := by
  have text := mapClass_eq_ok.1 maps
  have own := entryOf_of_find? found
  have named := sound.name_of_find? found
  unfold Tiny.storedPart
  cases isNested : name.isInner with
  | false => rw [if_neg Bool.false_ne_true, text, mappedText_of_top (ClassName.path_of_top isNested), own]
  | true =>
      rw [if_pos rfl]
      obtain ⟨parent, path⟩ := ClassName.exists_parent isNested
      have present : (table.classes.entryAt? (parent.path ++ [name.key])).isSome := by
        rw [← path, ← find?_eq_entryAt?, found, Option.isSome_some]
      obtain ⟨around, aroundFound⟩ := Option.isSome_iff_exists.1
        (ClassForest.isSome_entryAt?_of_append parent.path_ne_nil present)
      rw [← find?_eq_entryAt?] at aroundFound
      obtain ⟨outer, outerMaps⟩ := sound.exists_mapClass parent
      have outerText := mapClass_eq_ok.1 outerMaps
      have noDollar : '$' ∉ entry.mapped.toList := by
        have ownPlain : entry.PlainMapped := plain.entryAt? found
        rwa [ClassEntry.PlainMapped, named, if_pos isNested] at ownPlain
      have ends : outer.text.toList.getLast? ≠ some '$' := by
        rw [outerText, sound.getLast?_mappedText aroundFound]
        have aroundPlain : around.PlainMapped := plain.entryAt? aroundFound
        unfold ClassEntry.PlainMapped at aroundPlain
        split at aroundPlain
        · exact fun last => aroundPlain (List.mem_of_getLast? last)
        · exact aroundPlain
      have simple : isSimpleText entry.mapped.toList = true := by
        have valid := (sound.soundAt found).mapped
        rwa [ClassEntry.MappedValid, named, if_pos isNested] at valid
      have whole : mapped = outer.within ⟨entry.mapped, simple⟩ := by
        apply ClassName.ext_text
        apply String.toList_injective
        rw [text, mappedText_of_nested path, own, ClassName.toList_within, outerText]
        simp
      rw [whole]
      exact ClassName.lastPart_within ends noDollar

end Table.Sound

end MixinLink
