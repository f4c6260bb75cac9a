import MixinLink.Proofs.Runs

/-!
# Contracts of steps

A contract says what holds of the table before and after a step, and which edits and diagnostics the step
may put out. A step meets a contract together with a property of the value that it gives. An attempt meets a
contract together with the failures that it may end with: it keeps the contract where it fails as well.
Steps that are put together from parts meet the contract if the parts do.

A weaker judgement is about attempts that check before they act: they meet a contract for as long as they may
still fail, and do more once they cannot fail any more.

Main exports: `Contract`, `Remap.Meets`, `Attempt.Meets`, `Attempt.Meets.orElse`, `Attempt.MeetsOnFailure`.
-/

namespace MixinLink

variable {α β : Type}

/-- What steps keep, and what they may put out. -/
structure Contract where
  /-- Holds of the table before and after. -/
  kept : Table → Prop
  edits : LiteralEdit → Prop
  reports : Diagnostic → Prop

/-- The contract allows an output. -/
structure Contract.Allows (contract : Contract) (output : Output) : Prop where
  edits : ∀ edit ∈ output.edits, contract.edits edit
  reports : ∀ diagnostic ∈ output.diagnostics, contract.reports diagnostic

/-- A step ends as a contract asks for, with a value that has a property. -/
structure Step.Meets (contract : Contract) (post : α → Prop) (step : Step α) : Prop where
  kept : contract.kept step.table
  allowed : contract.Allows step.output
  value : post step.value

/-- From every table that the contract is about, the step meets the contract. -/
def Remap.Meets (contract : Contract) (step : Remap α) (post : α → Prop) : Prop :=
  ∀ table, contract.kept table → (step table).Meets contract post

/-- The result is a success, or one of some failures. -/
def Checked.FailsOnly (failures : Failure → Prop) (result : Checked α) : Prop :=
  ∀ failure, result = .error failure → failures failure

/-- The attempt ends as a contract asks for, and fails only in some ways. -/
abbrev Attempt.MeetsAt (contract : Contract) (failures : Failure → Prop) (attempt : Attempt Unit)
    (table : Table) : Prop :=
  (attempt.run table).Meets contract (Checked.FailsOnly failures)

/-- From every table that the contract is about, the attempt meets the contract, and fails only in some
ways. -/
def Attempt.Meets (contract : Contract) (failures : Failure → Prop) (attempt : Attempt Unit) : Prop :=
  ∀ table, contract.kept table → attempt.MeetsAt contract failures table

variable {contract : Contract} {post : α → Prop} {next : β → Prop} {failures : Failure → Prop}

namespace Contract.Allows

/-- Nothing is always allowed. -/
theorem empty : contract.Allows .empty :=
  ⟨by simp, by simp⟩

/-- Two outputs are allowed one after the other. -/
theorem append {first second : Output} (start : contract.Allows first) (rest : contract.Allows second) :
    contract.Allows (first ++ second) := by
  refine ⟨fun edit member => ?_, fun diagnostic member => ?_⟩
  · exact (List.mem_append.1 member).elim (start.edits edit) (rest.edits edit)
  · exact (List.mem_append.1 member).elim (start.reports diagnostic) (rest.reports diagnostic)

end Contract.Allows

/-! ## Steps -/

namespace Remap.Meets

/-- Doing nothing meets every contract. -/
theorem pure {value : α} (holds : post value) : Meets contract (pure value) post :=
  fun _ kept => ⟨kept, .empty, holds⟩

/-- One step after the other. -/
theorem bind {first : Remap α} {rest : α → Remap β} (start : Meets contract first post)
    (followed : ∀ value, post value → Meets contract (rest value) next) :
    Meets contract (first >>= rest) next := by
  intro table kept
  have begun := start table kept
  have ended := followed _ begun.value _ begun.kept
  exact ⟨ended.kept, begun.allowed.append ended.allowed, ended.value⟩

/-- Log entries do not matter. -/
theorem note {result : Noted α} (holds : post result.value) : Meets contract (Remap.note result) post :=
  fun _ kept => ⟨kept, .empty, holds⟩

/-- A diagnostic that is allowed can be put out. -/
theorem report {diagnostic : Diagnostic} (may : contract.reports diagnostic) :
    Meets contract (Remap.report diagnostic) fun _ => True :=
  fun _ kept => ⟨kept, ⟨by simp [Remap.report], by simpa [Remap.report] using may⟩, trivial⟩

/-- Steps for all items of a list. -/
theorem each {step : α → Remap Unit} {items : List α}
    (meets : ∀ item ∈ items, Meets contract (step item) fun _ => True) :
    Meets contract (Remap.each step items) fun _ => True := by
  induction items with
  | nil => exact pure trivial
  | cons item rest ih =>
      apply (meets item List.mem_cons_self).bind
      intro _ _
      exact ih fun other member => meets other (List.mem_cons_of_mem _ member)

/-- Completing a class, if something is known about it. -/
theorem resolveClass {hierarchy : Hierarchy} {name : ClassName}
    (completes : ∀ table, contract.kept table → contract.kept (table.complete hierarchy name).value) :
    Meets contract (resolveClass hierarchy name) fun _ => True := by
  intro table kept
  rw [run_resolveClass]
  split
  · exact ⟨kept, .empty, trivial⟩
  · exact ⟨completes table kept, .empty, trivial⟩

end Remap.Meets

/-- An edit of a literal meets the contract where the edit is allowed, and where the literal has that value
already. -/
theorem Step.Meets.edit {literal : StringLiteral} {after : String} {table : Table}
    (kept : contract.kept table)
    (may : literal.value ≠ after → contract.edits ⟨literal.span, literal.value, after⟩) :
    (Remap.edit literal after table).Meets contract fun _ => True := by
  unfold Remap.edit LiteralEdit.plan?
  by_cases same : literal.value = after
  · rw [if_pos same]
    exact ⟨kept, .empty, trivial⟩
  · rw [if_neg same]
    exact ⟨kept, ⟨by simpa using may same, by simp⟩, trivial⟩

/-! ## Attempts -/

namespace Attempt

/-- A step that cannot fail. -/
theorem MeetsAt.lift {step : Remap Unit} {table : Table}
    (meets : (step table).Meets contract fun _ => True) :
    MeetsAt contract failures (liftM step) table := by
  rw [MeetsAt, run_lift]
  exact ⟨meets.kept, meets.allowed.append .empty, fun _ failed => by cases failed⟩

/-- After a first part that succeeds and keeps the contract, the rest matters. -/
theorem MeetsAt.bind_of_ok {first : Attempt α} {rest : α → Attempt Unit} {table : Table} {value : α}
    (success : (first.run table).value = .ok value) (allowed : contract.Allows (first.run table).output)
    (followed : MeetsAt contract failures (rest value) (first.run table).table) :
    MeetsAt contract failures (first >>= rest) table := by
  rw [MeetsAt, run_bind_of_ok success]
  exact ⟨followed.kept, allowed.append followed.allowed, followed.value⟩

namespace Meets

/-- Doing nothing meets every contract. -/
theorem pure : Meets contract failures (pure ()) :=
  fun _ kept => ⟨kept, .empty, fun _ failed => by cases failed⟩

/-- A step that cannot fail. -/
theorem lift {step : Remap Unit} (meets : Remap.Meets contract step fun _ => True) :
    Meets contract failures (liftM step) :=
  fun table kept => .lift (meets table kept)

/-- Being refused, in one of the ways that are left open. -/
theorem refused {failure : Failure} (may : failures failure) :
    Meets contract failures (Attempt.check (.error failure)) := by
  intro table kept
  refine ⟨kept, .empty, fun other isOther => ?_⟩
  cases isOther
  exact may

/-- A failure in more ways is left open. -/
theorem mono {more : Failure → Prop} {attempt : Attempt Unit} (meets : Meets contract failures attempt)
    (wider : ∀ failure, failures failure → more failure) : Meets contract more attempt := by
  intro table kept
  have ended := meets table kept
  exact ⟨ended.kept, ended.allowed, fun failure failed => wider failure (ended.value failure failed)⟩

/-- One attempt after the other. -/
theorem seq {first rest : Attempt Unit} (start : Meets contract failures first)
    (followed : Meets contract failures rest) : Meets contract failures (do first; rest) := by
  intro table kept
  have begun := start table kept
  cases outcome : (first.run table).value with
  | ok value => exact .bind_of_ok outcome begun.allowed (followed _ begun.kept)
  | error failure =>
      rw [MeetsAt, run_bind_of_error outcome]
      refine ⟨begun.kept, begun.allowed.append .empty, fun other isOther => ?_⟩
      cases isOther
      exact begun.value failure outcome

/-- Attempts for all items of a list. -/
theorem each {attempt : α → Attempt Unit} {items : List α}
    (meets : ∀ item ∈ items, Meets contract failures (attempt item)) :
    Meets contract failures (Attempt.each attempt items) := by
  induction items with
  | nil => exact pure
  | cons item rest ih =>
      refine (meets item List.mem_cons_self).seq (ih fun other member => ?_)
      exact meets other (List.mem_cons_of_mem _ member)

/-- An attempt after a step that cannot fail, chosen by the value of the step. -/
theorem bindLift {step : Remap α} {rest : α → Attempt Unit} (start : Remap.Meets contract step fun _ => True)
    (followed : ∀ value, Meets contract failures (rest value)) :
    Meets contract failures (liftM step >>= rest) := by
  intro table kept
  have begun := start table kept
  refine .bind_of_ok (by rw [run_lift]) ?_ ?_
  · rw [run_lift]
    exact begun.allowed.append .empty
  · rw [run_lift]
    exact followed _ _ begun.kept

/-- A failure of the attempt can be dealt with. -/
theorem orElse {attempt : Attempt Unit} {handle : Failure → Remap Unit}
    (meets : Meets contract failures attempt)
    (handled : ∀ failure, failures failure → Remap.Meets contract (handle failure) fun _ => True) :
    Remap.Meets contract (attempt.orElse handle) fun _ => True := by
  have run : Remap.Meets contract attempt.run (Checked.FailsOnly failures) := meets
  apply run.bind
  intro result fails
  cases result with
  | ok _ => exact .pure trivial
  | error failure => exact handled failure (fails failure rfl)

end Meets

end Attempt

/-! ## Attempts that fail early -/

/-- The end of an attempt that keeps a contract if it fails, and reports only what the contract allows
anyway. -/
structure Step.MeetsOnFailure (contract : Contract) (step : Step (Checked α)) : Prop where
  reports : ∀ diagnostic ∈ step.output.diagnostics, contract.reports diagnostic
  failed : ∀ failure, step.value = .error failure →
    contract.kept step.table ∧ ∀ edit ∈ step.output.edits, contract.edits edit

/-- From every table that the contract is about, the attempt meets the contract if it fails. -/
def Attempt.MeetsOnFailure (contract : Contract) (attempt : Attempt α) : Prop :=
  ∀ table, contract.kept table → (attempt.run table).MeetsOnFailure contract

/-- After a first part that succeeds and keeps the contract, the rest has to keep it only if it fails. -/
theorem Step.MeetsOnFailure.bind_of_ok {first : Attempt α} {rest : α → Attempt β} {table : Table} {value : α}
    (success : (first.run table).value = .ok value) (kept : contract.kept (first.run table).table)
    (allowed : contract.Allows (first.run table).output)
    (followed : (rest value).MeetsOnFailure contract) :
    ((first >>= rest).run table).MeetsOnFailure contract := by
  have ended := followed _ kept
  rw [Attempt.run_bind_of_ok success]
  constructor
  · intro diagnostic member
    exact (List.mem_append.1 member).elim (allowed.reports diagnostic) (ended.reports diagnostic)
  · intro failure failed
    obtain ⟨still, edits⟩ := ended.failed failure failed
    refine ⟨still, fun edit member => ?_⟩
    exact (List.mem_append.1 member).elim (allowed.edits edit) (edits edit)

namespace Attempt.MeetsOnFailure

/-- Doing nothing owes the contract nothing. -/
theorem pure (value : α) : MeetsOnFailure contract (pure value : Attempt α) :=
  fun _ _ => ⟨by simp, by simp⟩

/-- A step that cannot fail owes the contract only its reports. -/
theorem lift {step : Remap α}
    (reports : ∀ table, ∀ diagnostic ∈ (step table).output.diagnostics, contract.reports diagnostic) :
    MeetsOnFailure contract (liftM step : Attempt α) := by
  intro table _
  constructor
  · intro diagnostic member
    rw [Attempt.run_lift, Output.diagnostics_append, Output.diagnostics_empty, List.append_nil] at member
    exact reports table diagnostic member
  · intro failure failed
    cases failed

/-- Log entries do not matter. -/
theorem log (level : Level) (text : String) :
    MeetsOnFailure contract (liftM (Remap.log level text) : Attempt Unit) :=
  lift fun _ _ member => absurd member List.not_mem_nil

/-- Being refused changes nothing. -/
theorem refused (failure : Failure) :
    MeetsOnFailure contract (Attempt.check (.error failure) : Attempt α) :=
  fun _ kept => ⟨fun _ member => absurd member List.not_mem_nil,
    fun _ _ => ⟨kept, fun _ member => absurd member List.not_mem_nil⟩⟩

/-- After a step that cannot fail and keeps the contract, the rest has to keep it only if it fails. -/
theorem bindLift {step : Remap α} {rest : α → Attempt β} (start : Remap.Meets contract step fun _ => True)
    (followed : ∀ value, MeetsOnFailure contract (rest value)) :
    MeetsOnFailure contract (liftM step >>= rest) := by
  intro table kept
  have begun := start table kept
  refine Step.MeetsOnFailure.bind_of_ok (by rw [run_lift]) ?_ ?_ (followed _)
  · rw [run_lift]
    exact begun.kept
  · rw [run_lift]
    exact begun.allowed.append .empty

/-- An attempt that is sure to succeed owes the contract only its reports. -/
theorem ofSucceeds {other : Contract} {attempt : Attempt Unit}
    (succeeds : Meets other (fun _ => False) attempt)
    (kept : ∀ table, contract.kept table → other.kept table)
    (reports : ∀ diagnostic, other.reports diagnostic → contract.reports diagnostic) :
    MeetsOnFailure contract attempt := by
  intro table isKept
  have ended := succeeds table (kept table isKept)
  constructor
  · intro diagnostic member
    exact reports diagnostic (ended.allowed.reports diagnostic member)
  · intro failure failed
    exact (ended.value failure failed).elim

end Attempt.MeetsOnFailure

end MixinLink
