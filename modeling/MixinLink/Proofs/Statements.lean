import Mathlib.Data.List.ReduceOption
import MixinLink.Proofs.InheritedNames

/-!
# What lines say about a table

A class line says what its class is called, and a member line the same of a member of the class
above it. Saying it again changes the name, unless the new name is left out. So after any number of
statements each class and each member has the last of its names, or its own name if it got none.

Main exports: `Tiny.Statement`, `Tiny.Statement.apply`, `Tiny.lastName`, `Tiny.HoldsLatest`,
`Tiny.holdsLatest_foldl`.
-/

namespace MixinLink.Tiny

/-- What a line can say. -/
inductive Statement where
  | named (name : ClassName) (mapped : Option ClassName)
  | member (owner : ClassName) (row : MemberRow)

namespace Statement

/-- The class that is meant. -/
def owner : Statement → ClassName
  | named name _ => name
  | member owner _ => owner

/-- What is done to the entry of the class. -/
def change : Statement → ClassEntry → ClassEntry
  | named name mapped => nameAs name mapped
  | member _ row => row.add

/-- The table with what a line says. -/
def apply (table : Table) (statement : Statement) : Table :=
  table.update statement.owner statement.change

end Statement

/-! ## Names in the table -/

/-- The member that a row is about. -/
def MemberRow.member : MemberRow → Member
  | field name type _ => .field ⟨name, some type⟩
  | method signature _ => .method signature

/-- The deobfuscated name on a row, if it is not left out. -/
def MemberRow.mapped? : MemberRow → Option String
  | field _ _ mapped => mapped.map FieldName.text
  | method _ mapped => mapped.map MethodName.text

private theorem MemberRow.memberName?_add (row : MemberRow) (entry : ClassEntry) (member : Member) :
    (row.add entry).memberName? member
      = if member = row.member then some (row.mapped?.getD ((entry.memberName? member).getD member.name))
        else entry.memberName? member := by
  cases row with
  | field name type mapped =>
      cases mapped with
      | none => exact Table.memberName?_touchField entry ⟨name, some type⟩ member
      | some mapped => exact Table.memberName?_mapField entry ⟨name, some type⟩ mapped member
  | method signature mapped =>
      cases mapped with
      | none => exact Table.memberName?_touchMethod entry signature member
      | some mapped => exact Table.memberName?_mapMethod entry signature mapped member

private theorem MemberRow.mapped_add (row : MemberRow) (entry : ClassEntry) :
    (row.add entry).mapped = entry.mapped := by
  rcases row with ⟨name, type, _ | mapped⟩ | ⟨signature, _ | mapped⟩ <;> rfl

namespace Statement

/-- What is said about the name of a class: nothing, or a name that may be left out. -/
def aboutClass? (name : ClassName) : Statement → Option (Option String)
  | named other mapped => if name = other then some (mapped.map (storedPart name)) else none
  | member _ _ => none

/-- What is said about the name of a member: nothing, or a name that may be left out. -/
def aboutMember? (owner : ClassName) (known : Member) : Statement → Option (Option String)
  | named _ _ => none
  | member other row => if owner = other ∧ known = row.member then some row.mapped? else none

end Statement

/-- The last of some names counts, and those that are left out do not; without any it is the own name. -/
def lastName (own : String) (names : List (Option String)) : String :=
  names.reduceOption.getLast?.getD own

private theorem lastName_concat (own : String) (names : List (Option String)) (name : Option String) :
    lastName own (names ++ [name]) = name.getD (lastName own names) := by
  cases name with
  | none => simp [lastName, List.reduceOption_append]
  | some name => simp [lastName, List.reduceOption_append]

/-- The table has what some lines say, the last name of each class and each member. -/
structure HoldsLatest (table : Table) (statements : List Statement) : Prop where
  /-- There are entries for the classes that are meant and for those around them. -/
  classes : ∀ name, (table.find? name).isSome
    ↔ ∃ statement ∈ statements, name = statement.owner ∨ name.Encloses statement.owner
  classNames : ∀ name, (table.entryOf name).mapped
    = lastName name.key (statements.filterMap (Statement.aboutClass? name))
  members : ∀ owner known, (table.memberName? owner known).isSome
    ↔ ∃ statement ∈ statements, (statement.aboutMember? owner known).isSome
  memberNames : ∀ owner known, (table.memberName? owner known).getD known.name
    = lastName known.name (statements.filterMap (Statement.aboutMember? owner known))

/-- What is said about one name, statement by statement, if the last one counts. -/
theorem lastName_of_foldl (look : Table → String) {own : String} {about : Statement → Option (Option String)}
    {table : Table} (start : look table = own)
    (step : ∀ table statement, look (Statement.apply table statement)
      = (about statement).elim (look table) (·.getD (look table))) (statements : List Statement) :
    look (statements.foldl Statement.apply table) = lastName own (statements.filterMap about) := by
  induction statements using List.reverseRecOn with
  | nil => exact start
  | append_singleton before statement ih =>
      rw [List.foldl_append, List.foldl_cons, List.foldl_nil, step, ih, List.filterMap_append]
      cases isAbout : about statement with
      | none => simp [isAbout]
      | some name => simp [isAbout, lastName_concat]

/-- What is there after some statements, if each adds what it mentions. -/
theorem isSome_of_foldl {α : Type} (look : Table → Option α) {mentions : Statement → Prop} {table : Table}
    (start : look table = none)
    (step : ∀ table statement, (look (Statement.apply table statement)).isSome
      ↔ (look table).isSome ∨ mentions statement) (statements : List Statement) :
    (look (statements.foldl Statement.apply table)).isSome
      ↔ ∃ statement ∈ statements, mentions statement := by
  induction statements using List.reverseRecOn with
  | nil => simp [start]
  | append_singleton before statement ih =>
      rw [List.foldl_append, List.foldl_cons, List.foldl_nil, step, ih]
      simp [or_and_right, exists_or]

private theorem memberName?_apply (table : Table) (statement : Statement) (owner : ClassName)
    (known : Member) :
    (statement.apply table).memberName? owner known
      = (statement.aboutMember? owner known).elim (table.memberName? owner known)
          fun name => some (name.getD ((table.memberName? owner known).getD known.name)) := by
  rw [Table.memberName?_eq_entryOf, Table.memberName?_eq_entryOf, Statement.apply, Table.entryOf_update]
  by_cases own : owner = statement.owner
  · rw [if_pos own, ← own]
    cases statement with
    | named name mapped => cases mapped <;> rfl
    | member other row =>
        have isOwner : owner = other := own
        simp only [Statement.change, row.memberName?_add, Statement.aboutMember?, isOwner, true_and]
        split <;> rfl
  · rw [if_neg own]
    cases statement with
    | named name mapped => rfl
    | member other row =>
        have notOwner : owner ≠ other := own
        simp [Statement.aboutMember?, notOwner]

private theorem mapped_apply (table : Table) (statement : Statement) (name : ClassName) :
    ((statement.apply table).entryOf name).mapped
      = (statement.aboutClass? name).elim (table.entryOf name).mapped
        (·.getD (table.entryOf name).mapped) := by
  rw [Statement.apply, Table.entryOf_update]
  by_cases own : name = statement.owner
  · rw [if_pos own, ← own]
    cases statement with
    | named other mapped =>
        have isName : name = other := own
        subst isName
        cases mapped with
        | none => simp [Statement.change, Statement.aboutClass?, nameAs]
        | some seen => simp [Statement.change, Statement.aboutClass?, nameAs]
    | member other row => exact row.mapped_add _
  · rw [if_neg own]
    cases statement with
    | named other mapped =>
        have notName : name ≠ other := own
        simp [Statement.aboutClass?, notName]
    | member other row => rfl

private theorem isSome_find?_apply (table : Table) (statement : Statement) (name : ClassName) :
    ((statement.apply table).find? name).isSome
      ↔ (table.find? name).isSome ∨ name = statement.owner ∨ name.Encloses statement.owner := by
  have around : name.path <+: statement.owner.path
      ↔ name = statement.owner ∨ name.Encloses statement.owner := by
    rw [ClassName.encloses_iff]
    constructor
    · intro isPrefix
      by_cases same : name = statement.owner
      · exact .inl same
      · exact .inr ⟨isPrefix, same⟩
    · rintro (same | ⟨isPrefix, _⟩)
      · rw [same]
      · exact isPrefix
  rw [← around, Statement.apply, Table.find?_update, Option.isSome_map, Option.isSome_or, Bool.or_eq_true]
  by_cases isPrefix : name.path <+: statement.owner.path
  · simp [isPrefix]
  · simp [isPrefix]

/-- A table that statements lead to holds the latest of them. -/
theorem holdsLatest_foldl (namespaces : Namespaces) (statements : List Statement) :
    HoldsLatest (statements.foldl Statement.apply (.empty namespaces)) statements where
  classes name := isSome_of_foldl (·.find? name) rfl (fun _ _ => isSome_find?_apply _ _ _) statements
  classNames name := lastName_of_foldl (fun table => (table.entryOf name).mapped) rfl
    (fun _ _ => mapped_apply _ _ _) statements
  members owner known := by
    refine isSome_of_foldl (·.memberName? owner known) rfl (fun table statement => ?_) statements
    rw [memberName?_apply]
    cases statement.aboutMember? owner known with
    | none => simp
    | some name => simp
  memberNames owner known := by
    refine lastName_of_foldl (fun table => (table.memberName? owner known).getD known.name) rfl
      (fun table statement => ?_) statements
    rw [memberName?_apply]
    cases statement.aboutMember? owner known with
    | none => rfl
    | some name => rfl

end MixinLink.Tiny
