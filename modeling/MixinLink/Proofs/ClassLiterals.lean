import MixinLink.Proofs.Reachable
import MixinLink.Proofs.References
import MixinLink.Proofs.Rewording

/-!
# Literals that name a class

A string literal names a class as a target of a mixin, as the class that a factory creates, or as an
injection point. A factory and an injection point get the mapped class, also if only classes around it
have entries. A target of a mixin is looked up as a whole: without an entry of its own it is kept, even
where the other two are changed.

Main exports: `ClassPosition`, `ClassPosition.valueIn`, `ClassPosition.valueIn_mixinTarget`,
`ClassPosition.valueIn_factoryTarget`, `ClassPosition.valueIn_agree_iff`.
-/

namespace MixinLink

/-- The value of a literal once some edits are made. -/
def StringLiteral.valueAfter (literal : StringLiteral) (edits : List LiteralEdit) : String :=
  match edits.find? (·.span = literal.span) with
  | none => literal.value
  | some edit => edit.after

/-- Where a literal names a class. -/
inductive ClassPosition where
  /-- In the `targets` of a mixin. -/
  | mixinTarget
  /-- The explicit target of an accessor that creates instances. -/
  | factoryTarget
  /-- The target of an injection point of some sort, at some place. -/
  | pointTarget (place : Place) (sort : Option String)

namespace ClassPosition

/-- Reads a literal as its position does, and remaps it. -/
def remap (hierarchy : Hierarchy) (literal : StringLiteral) : ClassPosition → Attempt Unit
  | mixinTarget => remapPrivateTarget (parseLiteral ClassReference.parse literal).value
  | factoryTarget => remapFactory ⟨some literal⟩
  | pointTarget place sort =>
    remapPoint hierarchy place ⟨sort, some (parseLiteral PointReference.parse literal).value⟩

/-- The value that a literal in a position has after it was remapped. -/
def valueIn (position : ClassPosition) (hierarchy : Hierarchy) (table : Table) (literal : StringLiteral) :
    String :=
  literal.valueAfter ((position.remap hierarchy literal).run table).output.edits

end ClassPosition

/-! ## How a class is written -/

/-- Different classes are written in different ways. -/
theorem ClassSpelling.write_injective {spelling : ClassSpelling} {name other : ClassName}
    (same : spelling.write name = spelling.write other) : name = other := by
  have parsed := congrArg PointReference.parse same
  rw [PointReference.parse_write, PointReference.parse_write] at parsed
  simp only [Except.ok.injEq, PointReference.ofClass.injEq, ClassReference.mk.injEq] at parsed
  exact parsed.1

/-- A reference names the class that its text names with dots. -/
theorem ClassReference.parseDotted_of_parse {text : String} {reference : ClassReference}
    (success : parse text = .ok reference) : ClassName.parseDotted text = .ok reference.name := by
  unfold parse at success
  split at success
  · obtain ⟨name, isName, rfl⟩ := Checked.map_eq_ok.1 success
    rw [← ClassName.parse_eq_ok.1 isName]
    exact name.parseDotted_text
  · obtain ⟨name, isName, rfl⟩ := Checked.map_eq_ok.1 success
    exact isName

/-- An injection point can be a class only, written in the same ways. -/
theorem PointReference.parse_of_class {text : String} {reference : ClassReference}
    (success : ClassReference.parse text = .ok reference) : parse text = .ok (.ofClass reference) := by
  have written : ';' ∉ text.toList := by
    rw [← ClassReference.text_of_parse success]
    unfold ClassReference.parse at success
    split at success
    · obtain ⟨name, _, rfl⟩ := Checked.map_eq_ok.1 success
      exact name.semicolon_not_mem
    · obtain ⟨name, _, rfl⟩ := Checked.map_eq_ok.1 success
      exact name.semicolon_not_mem_dotted
  unfold parse
  simp only [Text.splitFirst?_eq_none.2 written]
  exact Checked.map_eq_ok.2 ⟨reference, success, rfl⟩

/-- A literal that can be read is read as its value. -/
theorem value_parseLiteral {α : Type} {parse : String → Checked α} {literal : StringLiteral} {value : α}
    (success : parse literal.value = .ok value) :
    (parseLiteral parse literal).value = ⟨literal, some value⟩ := by
  rw [parseLiteral, success]
  rfl

/-! ## What becomes of a literal -/

/-- An edit gives a literal its value. -/
theorem valueAfter_edit (literal : StringLiteral) (after : String) (table : Table) :
    literal.valueAfter
      ((liftM (Remap.edit literal after) : Attempt Unit).run table).output.edits = after := by
  rw [Attempt.run_lift]
  unfold Remap.edit LiteralEdit.plan?
  by_cases same : literal.value = after
  · simp [same, StringLiteral.valueAfter]
  · simp [same, StringLiteral.valueAfter]

section Positions

variable {table : Table} {literal : StringLiteral} {reference : ClassReference} {mapped : ClassName}

/-- A literal that names a class gets the mapped class. -/
theorem valueAfter_remapClassLiteral (written : reference.text = literal.value)
    (maps : table.mapClass reference.name = .ok mapped) :
    literal.valueAfter ((remapClassLiteral literal reference).run table).output.edits
      = reference.write mapped := by
  rw [run_remapClassLiteral written maps]
  exact valueAfter_edit literal _ table

namespace ClassPosition

variable (hierarchy : Hierarchy)

/-- A target of a mixin gets the mapped class if the class has an entry of its own. -/
theorem valueIn_mixinTarget (sound : table.Sound)
    (parsed : ClassReference.parse literal.value = .ok reference)
    (maps : table.mapClass reference.name = .ok mapped) :
    mixinTarget.valueIn hierarchy table literal
      = if (table.find? reference.name).isSome then reference.write mapped else literal.value := by
  have node : table.literalNode? literal.value = table.node? reference.name := by
    rw [sound.literalNode?_eq, ClassReference.parseDotted_of_parse parsed]
    rfl
  simp only [valueIn, remap, value_parseLiteral parsed, remapPrivateTarget]
  rw [Attempt.run_bind_table, node]
  cases found : table.node? reference.name with
  | none => simp [Table.find?, found, StringLiteral.valueAfter]
  | some entry =>
      have present : table.find? reference.name = some entry.1 := by
        rw [Table.find?, found, Option.map_some]
      have named := sound.name_of_find? present
      simp only [present, Option.isSome_some, if_true]
      rw [Attempt.run_bind_check (named ▸ maps)]
      exact valueAfter_edit literal _ table

/-- The target of a factory gets the mapped class. -/
theorem valueIn_factoryTarget (parsed : ClassReference.parse literal.value = .ok reference)
    (named : literal.value ≠ constructorTarget) (maps : table.mapClass reference.name = .ok mapped) :
    factoryTarget.valueIn hierarchy table literal = reference.write mapped := by
  have read : ((liftM (explicitName ClassReference.parse literal) : Attempt _).run table).value
      = .ok (some reference) := by
    rw [Attempt.run_lift]
    exact congrArg (fun literal => Except.ok (ParsedLiteral.parsed literal)) (value_parseLiteral parsed)
  simp only [valueIn, remap, remapFactory, if_neg named]
  rw [Attempt.run_bind_of_ok read]
  exact valueAfter_remapClassLiteral (ClassReference.text_of_parse parsed) maps

/-- An injection point gets the mapped class. -/
theorem valueIn_pointTarget (place : Place) (sort : Option String)
    (parsed : ClassReference.parse literal.value = .ok reference)
    (maps : table.mapClass reference.name = .ok mapped) :
    (pointTarget place sort).valueIn hierarchy table literal = reference.write mapped := by
  simp only [valueIn, remap, remapPoint, value_parseLiteral (PointReference.parse_of_class parsed)]
  exact valueAfter_remapClassLiteral (ClassReference.text_of_parse parsed) maps

/-- A factory and an injection point get the mapped class, a target of a mixin gets it if the class has an
entry of its own. So the positions agree exactly if there is such an entry or nothing to change. -/
theorem valueIn_agree_iff (reachable : table.Reachable)
    (parsed : ClassReference.parse literal.value = .ok reference)
    (named : literal.value ≠ constructorTarget) (hierarchy : Hierarchy) :
    ∃ mapped, table.mapClass reference.name = .ok mapped
      ∧ mixinTarget.valueIn hierarchy table literal
        = (if (table.find? reference.name).isSome then reference.write mapped else literal.value)
      ∧ factoryTarget.valueIn hierarchy table literal = reference.write mapped
      ∧ (∀ place sort, (pointTarget place sort).valueIn hierarchy table literal = reference.write mapped)
      ∧ ((∀ first second : ClassPosition,
          first.valueIn hierarchy table literal = second.valueIn hierarchy table literal)
        ↔ (table.find? reference.name).isSome = true ∨ mapped = reference.name) := by
  obtain ⟨mapped, maps⟩ := reachable.sound.exists_mapClass reference.name
  have written := ClassReference.text_of_parse parsed
  have mixin := valueIn_mixinTarget hierarchy reachable.sound parsed maps
  have factory := valueIn_factoryTarget hierarchy parsed named maps
  have point := fun place sort => valueIn_pointTarget hierarchy place sort parsed maps
  refine ⟨mapped, maps, mixin, factory, point, ?_, ?_⟩
  · intro agree
    have same := agree mixinTarget factoryTarget
    rw [mixin, factory] at same
    split at same
    · rename_i present
      exact .inl present
    · rw [← written] at same
      exact .inr (ClassSpelling.write_injective same).symm
  · intro known
    have mixinMapped : mixinTarget.valueIn hierarchy table literal = reference.write mapped := by
      rw [mixin]
      rcases known with present | same
      · rw [if_pos present]
      · rw [same, ← written]
        exact ite_self _
    have mapsTo : ∀ position : ClassPosition,
        position.valueIn hierarchy table literal = reference.write mapped := by
      intro position
      cases position with
      | mixinTarget => exact mixinMapped
      | factoryTarget => exact factory
      | pointTarget place sort => exact point place sort
    intro first second
    rw [mapsTo first, mapsTo second]

end ClassPosition

end Positions

/-! ## A nested class whose outer class is renamed -/

namespace ClassPosition

def literalOuter : ClassName :=
  ⟨"r/a", by decide +kernel⟩

def literalNested : ClassName :=
  ⟨"r/a$b", by decide +kernel⟩

/-- There is an entry for the outer class, after `operations` perhaps one for the nested class as well. -/
def literalTable (operations : List Operation) : Table :=
  (.createClass literalOuter :: .renameClass literalOuter "q/Outer" :: operations).foldl
    Operation.apply (.empty .standard)

def nestedLiteral : StringLiteral :=
  ⟨"r.a$b", ⟨10, 17⟩⟩

def literalPlace : Place :=
  ⟨⟨"m/Mixin", by decide +kernel⟩, "hook()V", []⟩

/-- The table comes from its operations. -/
theorem reachable_literalTable (operations : List Operation) : (literalTable operations).Reachable :=
  (Table.Reachable.empty .standard).run _

/-- With an entry for the nested class, all positions change the literal. -/
theorem valueIn_agree_nested :
    (literalTable [.createClass literalNested]).Reachable
      ∧ ClassReference.parse nestedLiteral.value = .ok ⟨literalNested, .dots⟩
      ∧ nestedLiteral.value ≠ constructorTarget
      ∧ ∀ first second : ClassPosition,
        first.valueIn .empty (literalTable [.createClass literalNested]) nestedLiteral
          = second.valueIn .empty (literalTable [.createClass literalNested]) nestedLiteral := by
  have reachable := reachable_literalTable [.createClass literalNested]
  have parsed : ClassReference.parse nestedLiteral.value = .ok ⟨literalNested, .dots⟩ := by decide +kernel
  have named : nestedLiteral.value ≠ constructorTarget := by decide +kernel
  obtain ⟨_, _, _, _, _, agree⟩ := valueIn_agree_iff reachable parsed named .empty
  exact ⟨reachable, parsed, named, agree.2 (.inl (by decide +kernel))⟩

/-- Without an entry for the nested class, a mixin keeps the literal that the other positions change. -/
theorem valueIn_differ_nested :
    (literalTable []).Reachable
      ∧ ClassReference.parse nestedLiteral.value = .ok ⟨literalNested, .dots⟩
      ∧ nestedLiteral.value ≠ constructorTarget
      ∧ mixinTarget.valueIn .empty (literalTable []) nestedLiteral = "r.a$b"
      ∧ factoryTarget.valueIn .empty (literalTable []) nestedLiteral = "q.Outer$b"
      ∧ (pointTarget literalPlace none).valueIn .empty (literalTable []) nestedLiteral = "q.Outer$b" :=
  ⟨reachable_literalTable [], by decide +kernel, by decide +kernel, by decide +kernel, by decide +kernel,
    by decide +kernel⟩

end ClassPosition

end MixinLink
