import MixinLink.Cleaning
import MixinLink.Proofs.CompletedMembers

/-!
# The fields that shadows stand for

Cleaning looks for the field behind a shadow from the target upwards, and stops at the first class that
declares it. Completing the target collects the fields of the same classes without stopping. The two agree:
a field is found exactly if completing the target has something to add for it.

Main exports: `Hierarchy.BringsThis`, `Hierarchy.declaredField?`, `firstBrought_of_found`,
`not_brought_of_not_found`, `found_iff_completed`.
-/

namespace MixinLink

namespace Hierarchy

/-- The class at some depth of the lineage of a class is known and declares this field, which the class has:
above the class itself, it is not private. -/
def BringsThis (hierarchy : Hierarchy) (name : ClassName) (depth : Nat) (field : FieldInfo) : Prop :=
  ∃ owner info, (hierarchy.lineage name)[depth]? = some owner ∧ hierarchy.find? owner = some info
    ∧ field ∈ info.fields ∧ (0 < depth → field.isPrivate = false)

/-- The first field with a signature among those that a class brings to the bottom of a lineage. -/
def declaredField? (hierarchy : Hierarchy) (isBottom : Bool) (signature : FieldSignature)
    (owner : ClassName) : Option FieldInfo :=
  (hierarchy.find? owner).bind fun info =>
    info.fields.find? fun field => (isBottom || !field.isPrivate) && decide (field.signature = signature)

variable {hierarchy : Hierarchy} {target owner : ClassName} {isBottom : Bool} {signature : FieldSignature}
  {field : FieldInfo}

private theorem declaredField?_eq_some
    (found : hierarchy.declaredField? isBottom signature owner = some field) :
    ∃ info, hierarchy.find? owner = some info ∧ field ∈ info.fields ∧ field.signature = signature
      ∧ (isBottom = false → field.isPrivate = false) := by
  obtain ⟨info, known, first⟩ := Option.bind_eq_some_iff.1 found
  have fits := List.find?_some first
  simp only [Bool.and_eq_true, Bool.or_eq_true, Bool.not_eq_true', decide_eq_true_eq] at fits
  refine ⟨info, known, List.mem_of_find?_eq_some first, fits.2, ?_⟩
  intro above
  exact fits.1.resolve_left (by simp [above])

private theorem declaredField?_eq_none (absent : hierarchy.declaredField? isBottom signature owner = none) :
    signature ∉ Table.declaredFields hierarchy isBottom owner := by
  intro declared
  obtain ⟨info, known, field, member, named, visible⟩ := Table.mem_declaredFields.1 declared
  simp only [declaredField?, known, Option.bind_some, List.find?_eq_none] at absent
  have hidden := absent field member
  cases isBottom with
  | true => simp [named] at hidden
  | false => simp [named, visible] at hidden

private theorem not_bringsField_zero (absent : hierarchy.declaredField? true signature target = none) :
    ¬hierarchy.BringsField target 0 signature := by
  intro brings
  obtain ⟨owner, atDepth, declared⟩ := Table.declaredAt_fields.2 brings
  have isTarget : owner = target := by simpa [lineage, eq_comm] using atDepth
  exact declaredField?_eq_none absent (isTarget ▸ declared)

private theorem not_bringsField_succ {depth : Nat}
    (absent : ∀ owner, (hierarchy.ancestors target)[depth]? = some owner →
      hierarchy.declaredField? false signature owner = none) :
    ¬hierarchy.BringsField target (depth + 1) signature := by
  intro brings
  obtain ⟨owner, atDepth, declared⟩ := Table.declaredAt_fields.2 brings
  have isAncestor : (hierarchy.ancestors target)[depth]? = some owner := by simpa [lineage] using atDepth
  exact declaredField?_eq_none (absent owner isAncestor) declared

end Hierarchy

section

variable {hierarchy : Hierarchy} {target : ClassName} {name : FieldName} {type : FieldType}
  {field : FieldInfo}

/-- Cleaning looks at the target and then at its ancestors, one after the other. -/
theorem findDeclaredField?_eq (hierarchy : Hierarchy) (target : ClassName) (name : FieldName)
    (type : FieldType) :
    findDeclaredField? hierarchy target name type
      = (hierarchy.declaredField? true ⟨name, some type⟩ target).or
        ((hierarchy.ancestors target).findSome? (hierarchy.declaredField? false ⟨name, some type⟩)) := by
  have alike : ∀ field : FieldInfo, decide (field.signature = ⟨name, some type⟩)
      = (decide (field.name = name) && decide (field.type = type)) := by
    intro field
    simp [FieldInfo.signature]
  have above : hierarchy.declaredField? false ⟨name, some type⟩ = fun ancestor =>
      (hierarchy.find? ancestor).bind fun info => info.fields.find? fun field =>
        !field.isPrivate && (decide (field.name = name) && decide (field.type = type)) := by
    funext ancestor
    simp only [Hierarchy.declaredField?, alike, Bool.false_or]
  simp only [findDeclaredField?, above, Hierarchy.declaredField?, alike, Bool.true_or, Bool.true_and]

/-- The field that is found belongs to the first class of the lineage that declares such a field. -/
theorem firstBrought_of_found (found : findDeclaredField? hierarchy target name type = some field) :
    ∃ depth, hierarchy.BringsThis target depth field ∧ field.signature = ⟨name, some type⟩
      ∧ ∀ earlier < depth, ¬hierarchy.BringsField target earlier ⟨name, some type⟩ := by
  rw [findDeclaredField?_eq] at found
  cases own : hierarchy.declaredField? true ⟨name, some type⟩ target with
  | some first =>
      rw [own, Option.some_or] at found
      cases found
      obtain ⟨info, known, member, named, _⟩ := Hierarchy.declaredField?_eq_some own
      refine ⟨0, ⟨target, info, rfl, known, member, ?_⟩, named, ?_⟩
      · intro above
        exact absurd above (Nat.lt_irrefl 0)
      · intro earlier before
        exact absurd before (Nat.not_lt_zero earlier)
  | none =>
      rw [own, Option.none_or] at found
      obtain ⟨nearer, owner, above, split, inOwner, notNearer⟩ := List.findSome?_eq_some_iff.1 found
      obtain ⟨info, known, member, named, visible⟩ := Hierarchy.declaredField?_eq_some inOwner
      have atDepth : (hierarchy.lineage target)[nearer.length + 1]? = some owner := by
        simp [Hierarchy.lineage, split]
      refine ⟨nearer.length + 1, ⟨owner, info, atDepth, known, member, fun _ => visible rfl⟩, named, ?_⟩
      intro earlier before
      cases earlier with
      | zero => exact Hierarchy.not_bringsField_zero own
      | succ earlier =>
          apply Hierarchy.not_bringsField_succ
          intro lower atEarlier
          have inNearer : nearer[earlier]? = some lower := by
            simpa [split, List.getElem?_append_left (Nat.lt_of_succ_lt_succ before)] using atEarlier
          exact notNearer lower (List.mem_of_getElem? inNearer)

/-- If nothing is found then no class of the lineage declares such a field for the target. -/
theorem not_brought_of_not_found (absent : findDeclaredField? hierarchy target name type = none)
    (depth : Nat) :
    ¬hierarchy.BringsField target depth ⟨name, some type⟩ := by
  rw [findDeclaredField?_eq, Option.or_eq_none_iff, List.findSome?_eq_none_iff] at absent
  cases depth with
  | zero => exact Hierarchy.not_bringsField_zero absent.1
  | succ depth =>
      apply Hierarchy.not_bringsField_succ
      intro owner atDepth
      exact absent.2 owner (List.mem_of_getElem? atDepth)

private theorem bringsField_of_bringsThis {depth : Nat} (brings : hierarchy.BringsThis target depth field) :
    hierarchy.BringsField target depth field.signature := by
  obtain ⟨owner, info, atDepth, known, member, visible⟩ := brings
  exact ⟨owner, info, field, atDepth, known, member, rfl, visible⟩

end

/-- Cleaning finds a field exactly if completing the target, in any table where it has no entry for the field
yet, adds one. The field that is found is declared in the first class, of the target and then its ancestors,
that declares such a field: the target itself, or one where it is not private. -/
theorem found_iff_completed (hierarchy : Hierarchy) (target : ClassName) (name : FieldName)
    (type : FieldType) :
    (∀ table : Table, table.isCompleted target = false → table.fieldName? target ⟨name, some type⟩ = none →
      ((∃ field, findDeclaredField? hierarchy target name type = some field)
        ↔ ∃ mapped,
          (table.complete hierarchy target).value.fieldName? target ⟨name, some type⟩ = some mapped))
    ∧ ∀ field, findDeclaredField? hierarchy target name type = some field →
      ∃ depth, hierarchy.BringsThis target depth field ∧ field.signature = ⟨name, some type⟩
        ∧ ∀ earlier < depth, ¬hierarchy.BringsField target earlier ⟨name, some type⟩ := by
  constructor
  · intro table todo unnamed
    have completes := (Table.completesMembers_fields hierarchy todo).map FieldMapping.mapped
    cases found : findDeclaredField? hierarchy target name type with
    | some field =>
        obtain ⟨depth, brings, named, first⟩ := firstBrought_of_found found
        have here := named ▸ bringsField_of_bringsThis brings
        have added := completes.added _ depth unnamed here first
        exact iff_of_true ⟨field, rfl⟩ ⟨_, added⟩
    | none =>
        have nothing : (table.complete hierarchy target).value.fieldName? target ⟨name, some type⟩ = none :=
          completes.absent _ unnamed (not_brought_of_not_found found)
        simp [nothing]
  · intro field found
    exact firstBrought_of_found found

/-! ## A reef with a private field in between -/

def reefTop : ClassName :=
  ⟨"reef/a", by decide +kernel⟩

def reefMiddle : ClassName :=
  ⟨"reef/b", by decide +kernel⟩

def reefBottom : ClassName :=
  ⟨"reef/c", by decide +kernel⟩

def reefField : FieldName :=
  ⟨"coral", by decide +kernel⟩

/-- `reef/c` extends `reef/b`, which has a private field of the same signature as the final one in `reef/a`
above. -/
def reefHierarchy : Hierarchy :=
  ⟨[⟨reefBottom, some reefMiddle, [], [], []⟩,
    ⟨reefMiddle, some reefTop, [], [⟨reefField, .ofClass reefTop, true, false⟩], []⟩,
    ⟨reefTop, none, [], [⟨reefField, .ofClass reefTop, false, true⟩], []⟩]⟩

private theorem ancestors_reefBottom : reefHierarchy.ancestors reefBottom = [reefMiddle, reefTop] := by
  cbv

private theorem found_reefField :
    findDeclaredField? reefHierarchy reefBottom reefField (.ofClass reefTop)
      = some ⟨reefField, .ofClass reefTop, false, true⟩ := by
  rw [findDeclaredField?, ancestors_reefBottom]
  decide +kernel

/-- The field of `reef/a` is found past the private one, and completing `reef/c` adds it to the
empty table. -/
theorem found_iff_completed_reef :
    (Table.empty .standard).isCompleted reefBottom = false
      ∧ (Table.empty .standard).fieldName? reefBottom ⟨reefField, some (.ofClass reefTop)⟩ = none
      ∧ (∃ mapped, ((Table.empty .standard).complete reefHierarchy reefBottom).value.fieldName? reefBottom
        ⟨reefField, some (.ofClass reefTop)⟩ = some mapped)
      ∧ ∃ depth, reefHierarchy.BringsThis reefBottom depth ⟨reefField, .ofClass reefTop, false, true⟩
        ∧ ∀ earlier < depth,
          ¬reefHierarchy.BringsField reefBottom earlier ⟨reefField, some (.ofClass reefTop)⟩ := by
  have todo : (Table.empty .standard).isCompleted reefBottom = false := by decide +kernel
  have unnamed :
      (Table.empty .standard).fieldName? reefBottom ⟨reefField, some (.ofClass reefTop)⟩ = none := by
    decide +kernel
  obtain ⟨completed, declared⟩ :=
    found_iff_completed reefHierarchy reefBottom reefField (.ofClass reefTop)
  have added := (completed _ todo unnamed).1 ⟨_, found_reefField⟩
  obtain ⟨depth, brings, _, first⟩ := declared _ found_reefField
  exact ⟨todo, unnamed, added, depth, brings, first⟩

end MixinLink
