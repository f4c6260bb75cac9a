import MixinLink.Remapping.Units

/-!
# Runs of composed steps

What a composed step does is made up of what its parts do: the second part starts from the table that
the first part leaves, and puts its output after that of the first part. A failed attempt ends where it
failed.

Main exports: `Attempt.run_bind_of_ok`, `Attempt.mem_edits_bind`, `Remap.mem_edits_bind`,
`Remap.mem_edits_edit`, `run_resolveClass`, `table_remapOne`.
-/

namespace MixinLink

variable {α β : Type}

namespace Output

/-- Edits come one after the other. -/
@[simp]
theorem edits_append (first second : Output) : (first ++ second).edits = first.edits ++ second.edits := rfl

/-- Reports come one after the other. -/
@[simp]
theorem diagnostics_append (first second : Output) :
    (first ++ second).diagnostics = first.diagnostics ++ second.diagnostics := rfl

/-- No output has no edits. -/
@[simp]
theorem edits_empty : empty.edits = [] := rfl

/-- No output has no reports. -/
@[simp]
theorem diagnostics_empty : empty.diagnostics = [] := rfl

private theorem eq_of_parts {first second : Output} (edits : first.edits = second.edits)
    (diagnostics : first.diagnostics = second.diagnostics) : first = second := by
  cases first
  cases second
  rw [mk.injEq]
  exact ⟨edits, diagnostics⟩

/-- Adding no output changes nothing. -/
theorem append_empty (output : Output) : output ++ empty = output :=
  eq_of_parts (List.append_nil _) (List.append_nil _)

/-- Outputs can be added in groups. -/
theorem append_assoc (first second third : Output) :
    first ++ second ++ third = first ++ (second ++ third) :=
  eq_of_parts (List.append_assoc ..) (List.append_assoc ..)

end Output

namespace Remap

variable {table : Table} {edit : LiteralEdit}

/-- The second step starts from the table that the first one leaves. -/
theorem run_bind (first : Remap α) (rest : α → Remap β) (table : Table) :
    (first >>= rest) table
      = ⟨(rest (first table).value (first table).table).value,
        (rest (first table).value (first table).table).table,
        (first table).output ++ (rest (first table).value (first table).table).output,
        (first table).log ++ (rest (first table).value (first table).table).log⟩ := rfl

/-- A plain value leaves everything as it is. -/
@[simp]
theorem run_pure (value : α) (table : Table) : (pure value : Remap α) table = ⟨value, table, .empty, []⟩ :=
  rfl

/-- Composed steps may be regrouped. -/
instance : LawfulMonad Remap :=
  LawfulMonad.mk' Remap
    (by
      intro α step
      funext table
      change (step >>= pure) table = step table
      simp [run_bind, Output.append_empty])
    (fun _ _ => rfl)
    (by
      intro α β γ first rest last
      funext table
      simp [run_bind, Output.append_assoc])

private theorem run_ite (condition : Bool) (first second : Remap α) (table : Table) :
    (if condition = true then first else second : Remap α) table
      = if condition = true then first table else second table := by
  cases condition <;> rfl

/-- The edits of two steps are those of each of them. -/
theorem mem_edits_bind {first : Remap α} {rest : α → Remap β} :
    edit ∈ ((first >>= rest) table).output.edits
      ↔ edit ∈ (first table).output.edits
        ∨ edit ∈ (rest (first table).value (first table).table).output.edits := by
  rw [run_bind, Output.edits_append, List.mem_append]

/-- An edit is put out if the literal changes. -/
theorem mem_edits_edit {literal : StringLiteral} {after : String} :
    edit ∈ (Remap.edit literal after table).output.edits
      ↔ literal.value ≠ after ∧ edit = ⟨literal.span, literal.value, after⟩ := by
  unfold Remap.edit LiteralEdit.plan?
  by_cases same : literal.value = after
  · simp [same]
  · simp [same]

/-- An edit of a literal leaves the table. -/
@[simp]
theorem table_edit (literal : StringLiteral) (after : String) (table : Table) :
    (Remap.edit literal after table).table = table := by
  unfold Remap.edit
  cases LiteralEdit.plan? literal after with
  | none => rfl
  | some edit => rfl

/-- An edit of a literal reports nothing. -/
@[simp]
theorem diagnostics_edit (literal : StringLiteral) (after : String) (table : Table) :
    (Remap.edit literal after table).output.diagnostics = [] := by
  unfold Remap.edit
  cases LiteralEdit.plan? literal after with
  | none => rfl
  | some edit => rfl

end Remap

namespace Attempt

variable {table : Table} {edit : LiteralEdit}

/-- After a success, the rest starts from the table that is left. -/
theorem run_bind_of_ok {first : Attempt α} {rest : α → Attempt β} {value : α}
    (success : (first.run table).value = .ok value) :
    (first >>= rest).run table
      = ⟨((rest value).run (first.run table).table).value,
        ((rest value).run (first.run table).table).table,
        (first.run table).output ++ ((rest value).run (first.run table).table).output,
        (first.run table).log ++ ((rest value).run (first.run table).table).log⟩ := by
  have split : (first >>= rest).run table = (first.run >>= ExceptT.bindCont rest) table := rfl
  rw [split, Remap.run_bind, success]
  rfl

/-- After a failure, the rest is left out. -/
theorem run_bind_of_error {first : Attempt α} {rest : α → Attempt β} {failure : Failure}
    (failed : (first.run table).value = .error failure) :
    (first >>= rest).run table
      = ⟨.error failure, (first.run table).table, (first.run table).output ++ .empty,
        (first.run table).log ++ []⟩ := by
  have split : (first >>= rest).run table = (first.run >>= ExceptT.bindCont rest) table := rfl
  rw [split, Remap.run_bind, failed]
  rfl

/-- Two attempts succeed if the first does and then the second. -/
theorem value_bind_eq_ok {first : Attempt α} {rest : α → Attempt β} {result : β} :
    ((first >>= rest).run table).value = .ok result
      ↔ ∃ value, (first.run table).value = .ok value
        ∧ ((rest value).run (first.run table).table).value = .ok result := by
  cases outcome : (first.run table).value with
  | error failure => simp [run_bind_of_error outcome]
  | ok value => simp [run_bind_of_ok outcome]

/-- The edits of two attempts are those of the first, and those of the second after a success. -/
theorem mem_edits_bind {first : Attempt α} {rest : α → Attempt β} :
    edit ∈ ((first >>= rest).run table).output.edits
      ↔ edit ∈ (first.run table).output.edits
        ∨ ∃ value, (first.run table).value = .ok value
          ∧ edit ∈ ((rest value).run (first.run table).table).output.edits := by
  cases outcome : (first.run table).value with
  | error failure => simp [run_bind_of_error outcome]
  | ok value => simp [run_bind_of_ok outcome]

/-- A plain value is a success that leaves everything as it is. -/
@[simp]
theorem run_pure (value : α) (table : Table) :
    (pure value : Attempt α).run table = ⟨.ok value, table, .empty, []⟩ := rfl

/-- A check leaves everything as it is. -/
@[simp]
theorem run_check (result : Checked α) (table : Table) :
    (check result).run table = ⟨result, table, .empty, []⟩ := rfl

/-- A reading leaves the table, and its entries are logged. -/
@[simp]
private theorem run_read (reading : Reading α) (table : Table) :
    (read reading).run table = ⟨reading.run.value, table, .empty, reading.run.log⟩ := rfl

/-- A step that cannot fail is a success. -/
@[simp]
theorem run_lift (step : Remap α) (table : Table) :
    (liftM step : Attempt α).run table
      = ⟨.ok (step table).value, (step table).table, (step table).output ++ .empty,
        (step table).log ++ []⟩ := rfl

private theorem eq_of_run {first second : Attempt α} (same : ∀ table, first.run table = second.run table) :
    first = second :=
  funext same

/-- Steps that cannot fail, one after the other, are one such step. -/
theorem lift_bind (first : Remap α) (rest : α → Remap β) :
    (liftM (first >>= rest) : Attempt β) = liftM first >>= fun value => liftM (rest value) := by
  refine eq_of_run fun table => ?_
  rw [run_bind_of_ok (by rw [run_lift]), run_lift, run_lift, run_lift]
  simp only [Remap.run_bind, Output.append_empty, List.append_nil]

/-- Log entries come first. -/
theorem run_bind_note (noted : Noted β) (rest : Attempt α) (table : Table) :
    (do let _ ← (liftM (Remap.note noted) : Attempt β); rest).run table
      = { rest.run table with log := noted.log ++ (rest.run table).log } := by
  rw [run_bind_of_ok (by rw [run_lift])]
  simp only [run_lift, Remap.note, List.append_nil]
  rfl

/-- The table can be looked at. -/
theorem run_bind_table (rest : Table → Attempt β) (table : Table) :
    (liftM Remap.table >>= rest : Attempt β).run table = (rest table).run table := rfl

/-- What is read well is logged, and the rest goes on with it. -/
theorem read_bind_of_ok {reading : Reading α} {value : α} (success : reading.run.value = .ok value)
    (rest : α → Attempt β) :
    read reading >>= rest = (do liftM (Remap.note ⟨(), reading.run.log⟩); rest value) := by
  refine eq_of_run fun table => ?_
  have reads : ((read reading).run table).value = .ok value := success
  rw [run_bind_of_ok reads, run_bind_note]
  rfl

/-- What is read badly is logged, and then it fails. -/
theorem read_bind_of_error {reading : Reading α} {failure : Failure}
    (failed : reading.run.value = .error failure) (rest : α → Attempt β) :
    read reading >>= rest
      = (do liftM (Remap.note ⟨(), reading.run.log⟩); Attempt.check (.error failure)) := by
  refine eq_of_run fun table => ?_
  have fails : ((read reading).run table).value = .error failure := failed
  rw [run_bind_of_error fails, run_bind_note]
  rfl

/-- The rest goes on with what was checked. -/
theorem run_bind_check {result : Checked α} {value : α} (success : result = .ok value)
    (rest : α → Attempt β) (table : Table) :
    (check result >>= rest).run table = (rest value).run table := by
  subst success
  rfl

end Attempt

/-- An explicit name is what its literal is read as. -/
theorem explicitName_bind (parse : String → Checked α) (literal : StringLiteral)
    (rest : Option α → Attempt β) :
    liftM (explicitName parse literal) >>= rest
      = (do
        liftM (Remap.note ⟨(), (parseLiteral parse literal).log⟩)
        rest (parseLiteral parse literal).value.parsed) := by
  refine Attempt.eq_of_run fun table => ?_
  rw [Attempt.run_bind_note, Attempt.run_bind_of_ok (by rw [Attempt.run_lift]), Attempt.run_lift]
  simp only [explicitName, Remap.run_bind, Remap.note, Remap.run_pure, List.append_nil]
  rfl

/-! ## Classes that something is known about -/

/-- A class is completed, unless nothing is known about it. -/
theorem run_resolveClass (hierarchy : Hierarchy) (name : ClassName) (table : Table) :
    resolveClass hierarchy name table
      = if (table.find? name).isNone && (hierarchy.find? name).isNone then ⟨false, table, .empty, []⟩
        else ⟨true, (table.complete hierarchy name).value, .empty, (table.complete hierarchy name).log⟩ := by
  have run := Remap.run_ite ((table.find? name).isNone && (hierarchy.find? name).isNone) (pure false)
    (do
      let completed ← Remap.note (table.complete hierarchy name)
      Remap.change fun _ => completed
      return true) table
  change resolveClass hierarchy name table = _ at run
  rw [run]
  split
  · rfl
  · simp only [Remap.run_bind, Remap.note, Remap.change, Remap.run_pure, List.append_nil]
    rfl

/-- Completing a class puts nothing out. -/
theorem output_resolveClass (hierarchy : Hierarchy) (name : ClassName) (table : Table) :
    (resolveClass hierarchy name table).output = .empty := by
  rw [run_resolveClass]
  split
  · rfl
  · rfl

/-- A class that is not known is left alone. -/
theorem run_resolveClass_of_unknown {hierarchy : Hierarchy} {name : ClassName} {table : Table}
    (absent : table.find? name = none) (unknown : hierarchy.find? name = none) :
    resolveClass hierarchy name table = ⟨false, table, .empty, []⟩ := by
  simp [run_resolveClass, absent, unknown]

/-! ## Members that get a name -/

section Naming

variable {className : ClassName} {text : String} {failure : Failure}

/-- A field is mapped to the name that it gets. -/
theorem run_nameField_of_ok {field : FieldDecl} {named : FieldName}
    (isName : FieldName.parse text = .ok named) (table : Table) :
    ∃ log, (nameField className field text).run table
      = ⟨.ok (), table.update className (·.mapField field.signature named), .empty, log⟩ := by
  unfold nameField
  rw [Attempt.run_bind_check isName]
  exact ⟨_, rfl⟩

/-- A text that is no name is refused. -/
theorem run_nameField_of_error {field : FieldDecl} (noName : FieldName.parse text = .error failure)
    (table : Table) : (nameField className field text).run table = ⟨.error failure, table, .empty, []⟩ := by
  unfold nameField
  rw [noName]
  rfl

/-- A method is mapped to the name that it gets. -/
theorem run_nameMethod_of_ok {method : MethodDecl} {named : MethodName}
    (isName : MethodName.parse text = .ok named) (table : Table) :
    ∃ log, (nameMethod className method text).run table
      = ⟨.ok (), table.update className (·.mapMethod method.signature named), .empty, log⟩ := by
  unfold nameMethod
  rw [Attempt.run_bind_check isName]
  exact ⟨_, rfl⟩

/-- A text that is no name is refused. -/
theorem run_nameMethod_of_error {method : MethodDecl} (noName : MethodName.parse text = .error failure)
    (table : Table) :
    (nameMethod className method text).run table = ⟨.error failure, table, .empty, []⟩ := by
  unfold nameMethod
  rw [noName]
  rfl

end Naming

/-! ## Mixins with known targets -/

/-- A mixin with known targets leaves the table that the work on its members leaves. -/
theorem table_remapOne {hierarchy : Hierarchy} {decl : ClassDecl} {mixin : MixinData}
    {targets : List ClassName} {now atTargets : Table}
    (isMixin : (MixinData.ofClass? decl).run.value = .ok (some mixin))
    (done : ((Attempt.each remapPrivateTarget mixin.privateTargets).run now).value = .ok ())
    (afterwards : atTargets = ((Attempt.each remapPrivateTarget mixin.privateTargets).run now).table)
    (known : (knownTargets hierarchy decl.name mixin.targetNames atTargets).value = targets)
    (someKnown : targets ≠ []) :
    (remapOne hierarchy decl now).table
      = (remapMembers hierarchy decl targets
        (knownTargets hierarchy decl.name mixin.targetNames atTargets).table).table := by
  have reads : ((Attempt.read (MixinData.ofClass? decl)).run now).value = .ok (some mixin) := isMixin
  have listed : ((liftM (knownTargets hierarchy decl.name mixin.targetNames) :
      Attempt (List ClassName)).run atTargets).value = .ok targets := by
    rw [Attempt.run_lift, known]
  have ran : ((remapMixin hierarchy decl).run now).value = .ok ()
      ∧ ((remapMixin hierarchy decl).run now).table
        = (remapMembers hierarchy decl targets
          (knownTargets hierarchy decl.name mixin.targetNames atTargets).table).table := by
    rw [remapMixin, Attempt.run_bind_of_ok reads]
    simp only [Attempt.run_read]
    rw [Attempt.run_bind_of_ok done, ← afterwards, Attempt.run_bind_of_ok listed]
    dsimp only
    split
    · contradiction
    · exact ⟨rfl, rfl⟩
  rw [remapOne, Attempt.orElse, Remap.run_bind, ran.1]
  exact ran.2

end MixinLink
