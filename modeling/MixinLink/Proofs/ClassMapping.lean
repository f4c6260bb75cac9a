import MixinLink.Proofs.Soundness
import MixinLink.Table.Mapping

/-!
# When classes keep their mapped names

The mapped name of a class depends on the mapped names of the entries on the way to it only. So changes
that leave those alone, also by adding entries that keep their names, change no mapped class name and no
mapped type. A sound table has a mapped name for every class, and a mapped type for every type.

Main exports: `Table.mapClass_eq`, `Table.mapClass_update`, `Table.mapFieldType_congr`,
`Table.mapMethodType_congr`, `Table.Sound.exists_mapClass`, `Table.Sound.exists_mapMethodType`.
-/

namespace MixinLink

namespace ClassForest

private theorem mappedPath_chain {change : ClassEntry → ClassEntry}
    (keeps : ∀ entry, (change entry).mapped = entry.mapped) (trail : List (String × ClassName))
    (keys : List String) : (chain change trail).mappedPath keys = keys := by
  induction trail generalizing keys with
  | nil => simp [chain, mappedPath]
  | cons first rest ih =>
      cases keys with
      | nil => cases rest <;> simp [chain, mappedPath]
      | cons k ks =>
          cases rest with
          | nil => by_cases same : first.1 = k <;> simp [chain, mappedPath, same, keeps, ClassEntry.fresh]
          | cons second rest =>
              by_cases same : first.1 = k <;> simp [chain, mappedPath, same, ClassEntry.fresh, ih]

/-- Neither entries that keep their names nor changes of other things matter. -/
theorem mappedPath_update {change : ClassEntry → ClassEntry}
    (keeps : ∀ entry, (change entry).mapped = entry.mapped) (trail : List (String × ClassName))
    (forest : ClassForest) (keys : List String) :
    (forest.update change trail).mappedPath keys = forest.mappedPath keys := by
  induction forest generalizing trail keys with
  | nil =>
      have unchanged : (nil.update change trail) = chain change trail := by
        cases trail <;> simp [update]
      rw [unchanged, mappedPath_chain keeps, mappedPath]
  | cons key entry inner rest innerIh restIh =>
      rcases trail with _ | ⟨⟨k, name⟩, trail⟩
      · simp [update]
      cases keys with
      | nil =>
          by_cases same : key = k
          · cases trail <;> simp [update, same, mappedPath]
          · simp [update, same, mappedPath]
      | cons first others =>
          by_cases same : key = k
          · cases trail with
            | nil => simp [update, same, mappedPath, keeps]
            | cons second trail => simp [update, same, mappedPath, innerIh]
          · simp [update, same, mappedPath, restIh]

private theorem mappedPath_of_absent {forest : ClassForest} {key : String}
    (absent : forest.find? [key] = none)
    (keys : List String) : forest.mappedPath (key :: keys) = key :: keys := by
  induction forest with
  | nil => rfl
  | cons first entry inner rest _ restIh =>
      by_cases same : first = key
      · simp [find?, same] at absent
      · simp only [find?, same, if_false] at absent
        simp only [mappedPath, same, if_false]
        exact restIh absent

end ClassForest

namespace Table

/-- The mapped name of a class is the text along its path, if that is a class name. -/
theorem mapClass_eq (table : Table) (name : ClassName) :
    table.mapClass name
      = Checked.within (.mappedClass name.text) (ClassName.parse (table.mappedText name)) := by
  unfold mapClass mapClass?
  cases top : table.topNode? name.nesting.top with
  | none =>
      have unmapped : table.mappedText name = name.text := by
        rw [mappedText, ClassName.path, ClassForest.mappedPath_of_absent top, ← ClassName.path]
        exact name.text_eq_intercalate_path.symm
      rw [unmapped, ClassName.parse_eq_ok.2 rfl]
      rfl
  | some node =>
      cases ClassName.parse (table.mappedText name) with
      | ok mapped => rfl
      | error failure => rfl

/-- A class is mapped to the name that has its mapped text. -/
theorem mapClass_eq_ok {table : Table} {name mapped : ClassName} :
    table.mapClass name = .ok mapped ↔ mapped.text = table.mappedText name := by
  rw [mapClass_eq, Checked.within_eq_ok, ClassName.parse_eq_ok]

/-- A change that leaves the mapped part of an entry alone changes no mapped class. -/
theorem mapClass_update {table : Table} {name : ClassName} {change : ClassEntry → ClassEntry}
    (keeps : ∀ entry, (change entry).mapped = entry.mapped) (other : ClassName) :
    (table.update name change).mapClass other = table.mapClass other := by
  rw [mapClass_eq, mapClass_eq, mappedText, mappedText, update,
    ClassForest.mappedPath_update keeps]

/-! ## Types -/

section Congruence

variable {table other : Table} (same : ∀ name, table.mapClass name = other.mapClass name)

include same

/-- Where the classes are mapped in the same way, so are the types of fields. -/
theorem mapFieldType_congr (type : FieldType) : table.mapFieldType type = other.mapFieldType type := by
  have base : table.mapBaseType type.base = other.mapBaseType type.base := by
    cases type.base with
    | primitive => rfl
    | object name => simp only [mapBaseType, same]
  unfold mapFieldType
  rw [base]

private theorem mapFieldTypes_congr (types : List FieldType) :
    table.mapFieldTypes types = other.mapFieldTypes types := by
  induction types with
  | nil => rfl
  | cons type types ih => simp only [mapFieldTypes, mapFieldType_congr same type, ih]

/-- Where the classes are mapped in the same way, so are the types of methods. -/
theorem mapMethodType_congr (type : MethodType) :
    table.mapMethodType type = other.mapMethodType type := by
  unfold mapMethodType
  rw [mapFieldTypes_congr same]
  cases type.result with
  | none => rfl
  | some result => simp only [mapFieldType_congr same]

end Congruence

/-! ## Sound tables -/

namespace Sound

private theorem isSimpleText_joinPieces {first : List Char} {pieces : List (List Char)}
    (firstSimple : isSimpleText first = true) (simple : ∀ piece ∈ pieces, isSimpleText piece = true) :
    isSimpleText (joinPieces first pieces) = true := by
  induction pieces generalizing first with
  | nil => rwa [joinPieces_nil]
  | cons piece pieces ih =>
      have later := ih (simple piece List.mem_cons_self)
        fun other member => simple other (List.mem_cons_of_mem _ member)
      rw [joinPieces_cons]
      exact isSimpleText_append_dollar firstSimple later

private theorem isClassText_intercalate {first : String} {rest : List String}
    (firstValid : isClassText first.toList = true)
    (simple : ∀ text ∈ rest, isSimpleText text.toList = true) :
    isClassText ("$".intercalate (first :: rest)).toList = true := by
  rw [toList_intercalate_dollar]
  cases rest with
  | nil => rwa [List.map_nil, joinPieces_nil]
  | cons second rest =>
      rw [List.map_cons, joinPieces_cons]
      refine isClassText_append_dollar firstValid (isSimpleText_joinPieces ?_ fun piece member => ?_)
      · exact simple second List.mem_cons_self
      · obtain ⟨text, inRest, rfl⟩ := List.mem_map.1 member
        exact simple text (List.mem_cons_of_mem _ inRest)

private theorem isSimpleText_mappedPath {forest : ClassForest} {outer keys : List String}
    (sound : forest.All ClassEntry.SoundAt outer) (nested : outer ≠ [])
    (simple : ∀ key ∈ keys, isSimpleText key.toList = true) :
    ∀ text ∈ forest.mappedPath keys, isSimpleText text.toList = true := by
  induction forest generalizing outer keys with
  | nil => exact simple
  | cons key entry inner rest innerIh restIh =>
      obtain ⟨own, innerSound, restSound⟩ := sound
      cases keys with
      | nil => exact simple
      | cons k ks =>
          by_cases same : key = k
          · intro text member
            simp only [ClassForest.mappedPath, same, if_true, List.mem_cons] at member
            rcases member with rfl | later
            · have isInner : entry.name.isInner = true := by
                rw [ClassName.isInner_iff_length_path, own.path, List.length_append]
                have := List.length_pos_iff.2 nested
                simpa using this
              simpa [ClassEntry.MappedValid, isInner] using own.mapped
            · refine innerIh innerSound (by simp) (fun other isKey => ?_) text later
              exact simple other (List.mem_cons_of_mem _ isKey)
          · intro text member
            simp only [ClassForest.mappedPath, same, if_false] at member
            exact restIh restSound nested simple text member

private theorem isClassText_mappedPath {forest : ClassForest} {first : String} {keys : List String}
    (sound : forest.All ClassEntry.SoundAt []) (firstValid : isClassText first.toList = true)
    (simple : ∀ key ∈ keys, isSimpleText key.toList = true) :
    isClassText ("$".intercalate (forest.mappedPath (first :: keys))).toList = true := by
  induction forest with
  | nil => exact isClassText_intercalate firstValid simple
  | cons key entry inner rest _ restIh =>
      obtain ⟨own, innerSound, restSound⟩ := sound
      by_cases same : key = first
      · have isTop : entry.name.isInner = false := by
          rw [Bool.eq_false_iff, Ne, ClassName.isInner_iff_length_path, own.path]
          simp
        simp only [ClassForest.mappedPath, same, if_true]
        refine isClassText_intercalate ?_ (isSimpleText_mappedPath innerSound (by simp) simple)
        simpa [ClassEntry.MappedValid, isTop] using own.mapped
      · simp only [ClassForest.mappedPath, same, if_false]
        exact restIh restSound

variable {table : Table}

/-- A sound table maps every class to a valid class name. -/
theorem exists_mapClass (sound : table.Sound) (name : ClassName) :
    ∃ mapped, table.mapClass name = .ok mapped := by
  have valid : isClassText (table.mappedText name).toList = true := by
    refine isClassText_mappedPath sound.entries name.nesting.top.valid fun key member => ?_
    obtain ⟨simple, _, rfl⟩ := List.mem_map.1 member
    exact simple.valid
  exact ⟨⟨_, valid⟩, mapClass_eq_ok.2 rfl⟩

/-- A sound table maps all types of fields. -/
theorem exists_mapFieldType (sound : table.Sound) (type : FieldType) :
    ∃ mapped, table.mapFieldType type = .ok mapped := by
  unfold mapFieldType
  cases type.base with
  | primitive base => exact ⟨_, rfl⟩
  | object name =>
      obtain ⟨mapped, success⟩ := sound.exists_mapClass name
      simp only [mapBaseType, success]
      exact ⟨_, rfl⟩

private theorem exists_mapFieldTypes (sound : table.Sound) (types : List FieldType) :
    ∃ mapped, table.mapFieldTypes types = .ok mapped := by
  induction types with
  | nil => exact ⟨[], rfl⟩
  | cons type types ih =>
      obtain ⟨mapped, success⟩ := sound.exists_mapFieldType type
      obtain ⟨others, othersSuccess⟩ := ih
      exact ⟨mapped :: others, by rw [mapFieldTypes, success, othersSuccess]; rfl⟩

/-- A sound table maps all types of methods. -/
theorem exists_mapMethodType (sound : table.Sound) (type : MethodType) :
    ∃ mapped, table.mapMethodType type = .ok mapped := by
  obtain ⟨parameters, success⟩ := sound.exists_mapFieldTypes type.parameters
  unfold mapMethodType
  rw [success]
  cases type.result with
  | none => exact ⟨_, rfl⟩
  | some result =>
      obtain ⟨mapped, resultSuccess⟩ := sound.exists_mapFieldType result
      exact ⟨⟨parameters, some mapped⟩, by simp only [resultSuccess]; rfl⟩

end Sound

end Table

end MixinLink
