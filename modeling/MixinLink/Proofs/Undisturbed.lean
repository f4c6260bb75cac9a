import MixinLink.Proofs.Reachable
import MixinLink.Proofs.Resolution

/-!
# What remapping leaves alone

Remapping adds entries to the table and names the members that mixins declare. Everything else stays:
classes and types are mapped as before, every entry stays under its keys, and a member that has a mapped
name keeps it unless a remapped class declares the member.

Every change of a run has this frame, and frames compose, so a run over any number of source files has it.

Main exports: `Table.Undisturbed`, `Table.Undisturbed.change`, `Table.undisturbed_remapUnits`.
-/

namespace MixinLink

/-- Some of the classes declares this field of a class. -/
def DeclaresField (decls : List ClassDecl) (owner : ClassName) (signature : FieldSignature) : Prop :=
  ∃ decl ∈ decls, decl.name = owner ∧ ∃ field ∈ decl.fields, field.signature = signature

/-- Some of the classes declares this method of a class. -/
def DeclaresMethod (decls : List ClassDecl) (owner : ClassName) (signature : MethodSignature) : Prop :=
  ∃ decl ∈ decls, decl.name = owner ∧ ∃ method ∈ decl.methods, method.signature = signature

/-! ## Maps -/

namespace Assoc

variable {κ ν : Type} [DecidableEq κ]

/-- Every key stays, and so does its value unless the key is free to change. -/
def KeepsExcept (free : κ → Prop) (before after : List (κ × ν)) : Prop :=
  ∀ key value, find? key before = some value →
    ∃ later, find? key after = some later ∧ (later = value ∨ free key)

/-- Nothing is lost without a change. -/
theorem KeepsExcept.refl (free : κ → Prop) (entries : List (κ × ν)) : KeepsExcept free entries entries :=
  fun _ value found => ⟨value, found, .inl rfl⟩

/-- Nothing is lost in one change and then another. -/
theorem KeepsExcept.trans {free : κ → Prop} {first second third : List (κ × ν)}
    (one : KeepsExcept free first second) (two : KeepsExcept free second third) :
    KeepsExcept free first third := by
  intro key value found
  obtain ⟨middle, middleFound, middleSame⟩ := one key value found
  obtain ⟨later, laterFound, laterSame⟩ := two key middle middleFound
  refine ⟨later, laterFound, ?_⟩
  rcases middleSame with rfl | isFree
  · exact laterSame
  · exact .inr isFree

/-- More keys may be free. -/
theorem KeepsExcept.mono {free wider : κ → Prop} {before after : List (κ × ν)}
    (keeps : KeepsExcept free before after) (weaken : ∀ key, free key → wider key) :
    KeepsExcept wider before after := by
  intro key value found
  obtain ⟨later, laterFound, same⟩ := keeps key value found
  exact ⟨later, laterFound, same.imp_right (weaken key)⟩

private theorem keepsExcept_append (free : κ → Prop) (entries more : List (κ × ν)) :
    KeepsExcept free entries (entries ++ more) := by
  intro key value found
  exact ⟨value, by rw [find?_append, found, Option.some_or], .inl rfl⟩

private theorem keepsExcept_upsert {free : κ → Prop} {key : κ} (isFree : free key) (start : ν)
    (change : ν → ν)
    (entries : List (κ × ν)) : KeepsExcept free entries (upsert key start change entries) := by
  intro other value found
  rw [find?_upsert]
  by_cases same : key = other
  · subst same
    exact ⟨_, if_pos rfl, .inr isFree⟩
  · exact ⟨value, by rw [if_neg same, found], .inl rfl⟩

end Assoc

/-! ## Entries -/

namespace ClassEntry

/-- The class and its mapped name stay, and so do all members; only a member that one of the classes
declares may get another mapped name. -/
structure KeptBy (decls : List ClassDecl) (before after : ClassEntry) : Prop where
  name : after.name = before.name
  mapped : after.mapped = before.mapped
  fields : Assoc.KeepsExcept (DeclaresField decls before.name) before.fields after.fields
  methods : Assoc.KeepsExcept (DeclaresMethod decls before.name) before.methods after.methods

variable {decls more : List ClassDecl}

/-- Nothing is lost without a change. -/
theorem KeptBy.refl (entry : ClassEntry) : KeptBy decls entry entry :=
  ⟨rfl, rfl, .refl _ _, .refl _ _⟩

/-- Nothing is lost in one change and then another. -/
theorem KeptBy.trans {first second third : ClassEntry} (one : KeptBy decls first second)
    (two : KeptBy decls second third) : KeptBy decls first third where
  name := two.name.trans one.name
  mapped := two.mapped.trans one.mapped
  fields := one.fields.trans (one.name ▸ two.fields)
  methods := one.methods.trans (one.name ▸ two.methods)

/-- There may be more declarations. -/
theorem KeptBy.mono {before after : ClassEntry} (kept : KeptBy decls before after)
    (among : ∀ decl ∈ decls, decl ∈ more) : KeptBy more before after where
  name := kept.name
  mapped := kept.mapped
  fields := kept.fields.mono fun _ ⟨decl, declared, member⟩ => ⟨decl, among decl declared, member⟩
  methods := kept.methods.mono fun _ ⟨decl, declared, member⟩ => ⟨decl, among decl declared, member⟩

private theorem keptBy_completeWith (entry : ClassEntry) (fields : List (FieldSignature × FieldName))
    (methods : List (MethodSignature × MethodName)) :
    KeptBy decls entry (entry.completeWith fields methods) :=
  ⟨rfl, rfl, Assoc.keepsExcept_append _ _ _, Assoc.keepsExcept_append _ _ _⟩

private theorem keptBy_resolveField (entry : ClassEntry) (signature : FieldSignature) :
    KeptBy decls entry (entry.resolveField signature).2 := by
  rcases entry.resolveField_adds signature with same | ⟨mapped, _, added⟩
  · rw [same]
    exact .refl entry
  · rw [added]
    exact ⟨rfl, rfl, Assoc.keepsExcept_append _ _ _, .refl _ _⟩

private theorem keptBy_mapField {entry : ClassEntry} {signature : FieldSignature}
    (declared : DeclaresField decls entry.name signature) (mapped : FieldName) :
    KeptBy decls entry (entry.mapField signature mapped) :=
  ⟨rfl, rfl, Assoc.keepsExcept_upsert declared _ _ _, .refl _ _⟩

private theorem keptBy_mapMethod {entry : ClassEntry} {signature : MethodSignature}
    (declared : DeclaresMethod decls entry.name signature) (mapped : MethodName) :
    KeptBy decls entry (entry.mapMethod signature mapped) :=
  ⟨rfl, rfl, .refl _ _, Assoc.keepsExcept_upsert declared _ _ _⟩

end ClassEntry

/-! ## Tables -/

namespace Table

open ClassForest (Stored)

/-- A later table maps classes and types as before, and has every entry under its keys still, with all
members. Only a member that one of the classes declares may have another mapped name. -/
structure Undisturbed (decls : List ClassDecl) (before after : Table) : Prop where
  mapClass : ∀ name, after.mapClass name = before.mapClass name
  mapFieldType : ∀ type, after.mapFieldType type = before.mapFieldType type
  mapMethodType : ∀ type, after.mapMethodType type = before.mapMethodType type
  entries : ∀ keys entry below, Stored before.classes keys entry below →
    ∃ later laterBelow, Stored after.classes keys later laterBelow ∧ entry.KeptBy decls later

namespace Undisturbed

variable {decls more : List ClassDecl} {table before after : Table}

/-- Nothing is disturbed without a change. -/
theorem refl (table : Table) : Undisturbed decls table table where
  mapClass _ := rfl
  mapFieldType _ := rfl
  mapMethodType _ := rfl
  entries _ entry below isStored := ⟨entry, below, isStored, .refl entry⟩

/-- Nothing is disturbed by one change and then another. -/
theorem trans {first second third : Table} (one : Undisturbed decls first second)
    (two : Undisturbed decls second third) : Undisturbed decls first third where
  mapClass name := (two.mapClass name).trans (one.mapClass name)
  mapFieldType type := (two.mapFieldType type).trans (one.mapFieldType type)
  mapMethodType type := (two.mapMethodType type).trans (one.mapMethodType type)
  entries keys entry below isStored := by
    obtain ⟨middle, middleBelow, middleStored, middleKept⟩ := one.entries keys entry below isStored
    obtain ⟨later, laterBelow, laterStored, laterKept⟩ := two.entries keys middle middleBelow middleStored
    exact ⟨later, laterBelow, laterStored, middleKept.trans laterKept⟩

/-- There may be more declarations. -/
theorem mono (frame : Undisturbed decls before after) (among : ∀ decl ∈ decls, decl ∈ more) :
    Undisturbed more before after where
  mapClass := frame.mapClass
  mapFieldType := frame.mapFieldType
  mapMethodType := frame.mapMethodType
  entries keys entry below isStored := by
    obtain ⟨later, laterBelow, laterStored, kept⟩ := frame.entries keys entry below isStored
    exact ⟨later, laterBelow, laterStored, kept.mono among⟩

/-- Enough for a frame: classes are mapped as before, and the entry of every class is kept. -/
theorem of_find? (sound : before.Sound) (classes : ∀ name, after.mapClass name = before.mapClass name)
    (kept : ∀ name entry, before.find? name = some entry →
      ∃ later, after.find? name = some later ∧ entry.KeptBy decls later) :
    Undisturbed decls before after where
  mapClass := classes
  mapFieldType := mapFieldType_congr classes
  mapMethodType := mapMethodType_congr classes
  entries keys entry below isStored := by
    have path := (sound.stored isStored).path
    have found : before.find? entry.name = some entry := by
      rw [find?, node?, path, ClassForest.find?_of_stored sound.keys isStored, Option.map_some]
    obtain ⟨later, laterFound, isKept⟩ := kept _ _ found
    obtain ⟨⟨_, laterBelow⟩, node, rfl⟩ := Option.map_eq_some_iff.1 laterFound
    rw [node?, path] at node
    exact ⟨_, laterBelow, ClassForest.stored_of_find? node, isKept⟩

/-- Changing one entry disturbs nothing, if the change keeps the mapped name of any entry and keeps the
entry of the class. The entries that are added on the way keep their names. -/
theorem update (sound : table.Sound) {name : ClassName} {change : ClassEntry → ClassEntry}
    (mapped : ∀ entry, (change entry).mapped = entry.mapped)
    (kept : ∀ entry : ClassEntry, entry.name = name → entry.KeptBy decls (change entry)) :
    Undisturbed decls table (table.update name change) := by
  refine of_find? sound (mapClass_update mapped) fun other entry found => ?_
  rw [find?_update, found, Option.some_or, Option.map_some]
  refine ⟨_, rfl, ?_⟩
  split
  · rename_i same
    exact kept entry ((sound.name_of_find? found).trans same)
  · exact .refl entry

/-- Completing a class adds members only. -/
theorem complete (sound : table.Sound) (hierarchy : Hierarchy) (name : ClassName) :
    Undisturbed decls table (table.complete hierarchy name).value := by
  rw [complete_value]
  split
  · exact refl table
  · exact update sound (fun _ => rfl) fun entry _ => entry.keptBy_completeWith _ _

/-- Looking up a field adds fields only. -/
theorem resolveField (sound : table.Sound) (owner : ClassName) (signature : FieldSignature) :
    Undisturbed decls table (table.resolveField owner signature).2 := by
  refine of_find? sound (table.mapClass_resolveField owner signature) fun other entry found => ?_
  rw [find?_resolveField, found, Option.map_some]
  refine ⟨_, rfl, ?_⟩
  split
  · exact entry.keptBy_resolveField signature
  · exact .refl entry

/-- Naming a method that is declared changes this method only. -/
theorem mapMethod (sound : table.Sound) {decl : ClassDecl} {method : MethodDecl} (declared : decl ∈ decls)
    (member : method ∈ decl.methods) (named : MethodName) :
    Undisturbed decls table (table.update decl.name (·.mapMethod method.signature named)) :=
  update sound (fun _ => rfl) fun _ same =>
    ClassEntry.keptBy_mapMethod ⟨decl, declared, same.symm, method, member, rfl⟩ named

/-- Naming a field that is declared changes this field only. -/
theorem mapField (sound : table.Sound) {decl : ClassDecl} {field : FieldDecl} (declared : decl ∈ decls)
    (member : field ∈ decl.fields) (named : FieldName) :
    Undisturbed decls table (table.update decl.name (·.mapField field.signature named)) :=
  update sound (fun _ => rfl) fun _ same =>
    ClassEntry.keptBy_mapField ⟨decl, declared, same.symm, field, member, rfl⟩ named

/-- No change of remapping disturbs a sound table. -/
theorem change {hierarchy : Hierarchy} (sound : before.Sound) (step : Change hierarchy decls before after) :
    Undisturbed decls before after := by
  cases step with
  | complete name => exact complete sound hierarchy name
  | lookUp owner signature => exact resolveField sound owner signature
  | nameField declared member => exact mapField sound declared member _
  | nameMethod declared member => exact mapMethod sound declared member _
  | nameAccessor declared member => exact mapMethod sound declared member _

/-- Nor do all changes one after the other. -/
theorem evolves {hierarchy : Hierarchy} (sound : before.Sound)
    (changes : Evolves hierarchy decls before after) : Undisturbed decls before after := by
  induction changes with
  | refl => exact refl before
  | tail earlier last ih => exact ih.trans (change (sound.evolves earlier) last)

/-- Nor does remapping source files. -/
theorem remapUnits {table : Table} (sound : table.Sound) (hierarchy : Hierarchy) (units : List SourceUnit) :
    Undisturbed (units.flatMap SourceUnit.walk) table (remapUnits hierarchy table units).value.2 := by
  induction units generalizing table with
  | nil => exact refl table
  | cons unit rest ih =>
      have run := evolves_remapUnit sound hierarchy unit
      have first := evolves sound run
      have others := ih (sound.evolves run)
      rw [List.flatMap_cons]
      exact (first.mono fun _ member => List.mem_append_left _ member).trans
        (others.mono fun _ member => List.mem_append_right _ member)

end Undisturbed

/-- Remapping source files one after the other disturbs nothing but the declared members. -/
theorem undisturbed_remapUnits {table : Table} (reachable : table.Reachable) (hierarchy : Hierarchy)
    (units : List SourceUnit) :
    Undisturbed (units.flatMap SourceUnit.walk) table (remapUnits hierarchy table units).value.2 :=
  .remapUnits reachable.sound hierarchy units

/-! ## A mixin with a shadow method and a method of its own -/

def shadowTarget : ClassName :=
  ⟨"p/s", by decide +kernel⟩

def shadowMixin : ClassName :=
  ⟨"m/Shade", by decide +kernel⟩

/-- The method `s` without parameters and result. -/
def shadowMethod : MethodDecl :=
  ⟨⟨"s", by decide +kernel⟩, ⟨[], none⟩, false, [⟨AnnotationName.shadow, ⟨20, 27⟩, []⟩]⟩

def shadowOwn : MethodSignature :=
  ⟨⟨"dim", by decide +kernel⟩, [], none⟩

/-- Both methods of the mixin have a name already. -/
def shadowOperations : List Operation :=
  [.createClass shadowTarget, .renameClass shadowTarget "q/Sun",
    .mapMethod shadowTarget shadowMethod.signature ⟨"shine", by decide +kernel⟩,
    .mapMethod shadowMixin shadowMethod.signature ⟨"old", by decide +kernel⟩,
    .mapMethod shadowMixin shadowOwn ⟨"own", by decide +kernel⟩]

def shadowTable : Table :=
  (shadowOperations.foldl Operation.apply (.empty .standard)).update shadowTarget
    (ClassEntry.completeWith [] [])

def shadowUnit : SourceUnit :=
  ⟨"m/Shade.java",
    [.mk shadowMixin [⟨AnnotationName.mixin, ⟨0, 15⟩, [("value", .classLiteral shadowTarget)]⟩] []
      [shadowMethod] []]⟩

/-- The declared method is renamed, the other one keeps its name. -/
theorem undisturbed_shadow :
    shadowTable.Reachable
      ∧ ((remapUnits .empty shadowTable [shadowUnit]).value.2.find? shadowMixin).map
          (fun entry => entry.methods.map fun method => (method.1.text, method.2.mapped.text))
        = some [("s()V", "shine"), ("dim()V", "own")]
      ∧ Undisturbed ([shadowUnit].flatMap SourceUnit.walk) shadowTable
        (remapUnits .empty shadowTable [shadowUnit]).value.2 := by
  have reachable : shadowTable.Reachable := by
    have completed :=
      ((Reachable.empty .standard).run shadowOperations).apply (.complete .empty shadowTarget)
    rwa [Operation.apply, complete_of_unknown rfl (by decide +kernel)] at completed
  exact ⟨reachable, by decide +kernel, undisturbed_remapUnits reachable .empty [shadowUnit]⟩

end Table

end MixinLink
