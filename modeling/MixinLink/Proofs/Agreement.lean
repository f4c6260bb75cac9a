import MixinLink.Proofs.Runs
import MixinLink.Proofs.SameTables

/-!
# Steps that agree

Two steps agree if, started at tables of the same contents, they give related values, leave tables of the
same contents, and put out the same up to the order in which an ambiguity lists its candidates. Steps
that are put together from agreeing parts agree.

Main exports: `Diagnostic.Same`, `Output.Same`, `Remap.Agree`, `Attempt.Agree`,
`Attempt.Agree.acrossTargets`.
-/

namespace MixinLink

variable {α β γ δ : Type}

/-! ## Outputs -/

/-- The same diagnostic, up to the order of the candidates of an ambiguity. -/
inductive Diagnostic.Same : Diagnostic → Diagnostic → Prop where
  | refl (diagnostic : Diagnostic) : Same diagnostic diagnostic
  | ambiguousOverload (className : ClassName) (member : Option String) (target : String) (span : Span)
      {candidates others : List String} (reordered : candidates.Perm others) :
      Same (.ambiguousOverload className member target span candidates)
        (.ambiguousOverload className member target span others)

/-- The same edits, and the same diagnostics up to the order of candidates. -/
structure Output.Same (first second : Output) : Prop where
  edits : first.edits = second.edits
  diagnostics : List.Forall₂ Diagnostic.Same first.diagnostics second.diagnostics

namespace Output.Same

/-- Nothing is put out. -/
theorem empty : Same .empty .empty :=
  ⟨rfl, .nil⟩

/-- Outputs one after the other. -/
theorem append {first second more others : Output} (start : Same first second) (rest : Same more others) :
    Same (first ++ more) (second ++ others) := by
  refine ⟨?_, ?_⟩
  · rw [Output.edits_append, Output.edits_append, start.edits, rest.edits]
  · rw [Output.diagnostics_append, Output.diagnostics_append]
    exact List.rel_append start.diagnostics rest.diagnostics

end Output.Same

/-! ## Agreement -/

/-- Ends of steps with related values, tables of the same contents and the same output. -/
structure Step.Agree (related : α → β → Prop) (first : Step α) (second : Step β) : Prop where
  value : related first.value second.value
  tables : first.table.Twins second.table
  output : first.output.Same second.output

/-- Steps that end alike from tables of the same contents. -/
def Remap.Agree (related : α → β → Prop) (first : Remap α) (second : Remap β) : Prop :=
  ∀ table twin, table.Twins twin → Step.Agree related (first table) (second twin)

/-- Related results, or the same failure. -/
inductive Checked.Agree (related : α → β → Prop) : Checked α → Checked β → Prop where
  | ok {value : α} {other : β} (holds : related value other) : Agree related (.ok value) (.ok other)
  | error (failure : Failure) : Agree related (.error failure) (.error failure)

/-- Attempts that end alike from tables of the same contents. -/
def Attempt.Agree (related : α → β → Prop) (first : Attempt α) (second : Attempt β) : Prop :=
  Remap.Agree (Checked.Agree related) first.run second.run

/-- A result agrees with itself. -/
theorem Checked.Agree.refl (result : Checked α) : Checked.Agree Eq result result := by
  cases result with
  | ok value => exact .ok rfl
  | error failure => exact .error failure

namespace Remap.Agree

variable {related : α → β → Prop} {after : γ → δ → Prop}

/-- Related values. -/
theorem pure {value : α} {other : β} (holds : related value other) :
    Agree related (pure value) (pure other) :=
  fun _ _ twins => ⟨holds, twins, .empty⟩

/-- One step after the other. -/
theorem bind {first : Remap α} {second : Remap β} {rest : α → Remap γ} {others : β → Remap δ}
    (start : Agree related first second)
    (next : ∀ value other, related value other → Agree after (rest value) (others other)) :
    Agree after (first >>= rest) (second >>= others) := by
  intro table twin twins
  have begun := start table twin twins
  have ended := next _ _ begun.value _ _ begun.tables
  exact ⟨ended.value, ended.tables, begun.output.append ended.output⟩

/-- After a value that is the same in both, the rest has to agree for that value. -/
theorem bindSame {first second : Remap α} {rest : α → Remap γ} {others : α → Remap δ}
    (start : Agree Eq first second) (next : ∀ value, Agree after (rest value) (others value)) :
    Agree after (first >>= rest) (second >>= others) := by
  apply start.bind
  intro value other same
  subst same
  exact next value

/-- The table that a step reads. -/
theorem table : Agree Table.Twins Remap.table Remap.table :=
  fun _ _ twins => ⟨twins, twins, .empty⟩

/-- A change that leads to the same contents. -/
theorem change {change other : Table → Table}
    (kept : ∀ table twin : Table, table.Twins twin → (change table).Twins (other twin)) :
    Agree Eq (Remap.change change) (Remap.change other) :=
  fun table twin twins => ⟨rfl, kept table twin twins, .empty⟩

/-- Log entries do not matter. -/
theorem note {result : Noted α} {other : Noted β} (holds : related result.value other.value) :
    Agree related (Remap.note result) (Remap.note other) :=
  fun _ _ twins => ⟨holds, twins, .empty⟩

/-- Log entries do not matter. -/
theorem log (level : Level) (text : String) : Agree Eq (Remap.log level text) (Remap.log level text) :=
  note rfl

/-- A diagnostic that is the same. -/
theorem report {diagnostic other : Diagnostic} (same : diagnostic.Same other) :
    Agree Eq (Remap.report diagnostic) (Remap.report other) :=
  fun _ _ twins => ⟨rfl, twins, rfl, .cons same .nil⟩

/-- The same edit. -/
theorem edit (literal : StringLiteral) (text : String) :
    Agree Eq (Remap.edit literal text) (Remap.edit literal text) := by
  unfold Remap.edit
  split
  · exact pure rfl
  · exact fun _ _ twins => ⟨rfl, twins, rfl, .nil⟩

/-- Steps for all items of a list. -/
theorem each {step : α → Remap Unit} (agree : ∀ item, Agree Eq (step item) (step item)) (items : List α) :
    Agree Eq (Remap.each step items) (Remap.each step items) := by
  induction items with
  | nil => exact pure rfl
  | cons item rest ih => exact (agree item).bindSame fun _ => ih

end Remap.Agree

namespace Attempt.Agree

variable {related : α → β → Prop} {after : γ → δ → Prop}

/-- Related values. -/
theorem pure {value : α} {other : β} (holds : related value other) :
    Agree related (pure value) (pure other) :=
  Remap.Agree.pure (.ok holds)

/-- One attempt after the other. -/
theorem bind {first : Attempt α} {second : Attempt β} {rest : α → Attempt γ} {others : β → Attempt δ}
    (start : Agree related first second)
    (next : ∀ value other, related value other → Agree after (rest value) (others other)) :
    Agree after (first >>= rest) (second >>= others) := by
  apply Remap.Agree.bind start
  intro result other relatedResults
  cases relatedResults with
  | ok holds => exact next _ _ holds
  | error failure => exact Remap.Agree.pure (.error failure)

/-- After a value that is the same in both, the rest has to agree for that value. -/
theorem bindSame {first second : Attempt α} {rest : α → Attempt γ} {others : α → Attempt δ}
    (start : Agree Eq first second) (next : ∀ value, Agree after (rest value) (others value)) :
    Agree after (first >>= rest) (second >>= others) := by
  apply start.bind
  intro value other same
  subst same
  exact next value

/-- A step that cannot fail. -/
theorem lift {step : Remap α} {other : Remap β} (agree : Remap.Agree related step other) :
    Agree related (liftM step : Attempt α) (liftM other : Attempt β) :=
  Remap.Agree.bind agree fun _ _ holds => Remap.Agree.pure (.ok holds)

/-- The same check. -/
theorem check {result other : Checked α} (same : result = other) :
    Agree Eq (Attempt.check result) (Attempt.check other) := by
  subst same
  exact Remap.Agree.pure (.refl result)

/-- The same reading. -/
theorem read (reading : Reading α) : Agree Eq (Attempt.read reading) (Attempt.read reading) :=
  Remap.Agree.note (.refl reading.run.value)

/-- Attempts for all items of a list. -/
theorem each {attempt : α → Attempt Unit} (agree : ∀ item, Agree Eq (attempt item) (attempt item))
    (items : List α) : Agree Eq (Attempt.each attempt items) (Attempt.each attempt items) := by
  induction items with
  | nil => exact pure rfl
  | cons item rest ih => exact (agree item).bindSame fun _ => ih

/-- A failure is dealt with in the same way. -/
theorem orElse {attempt : Attempt Unit} {handle : Failure → Remap Unit} (agree : Agree Eq attempt attempt)
    (handled : ∀ failure, Remap.Agree Eq (handle failure) (handle failure)) :
    Remap.Agree Eq (attempt.orElse handle) (attempt.orElse handle) := by
  apply Remap.Agree.bind agree
  intro result other relatedResults
  cases relatedResults with
  | ok => exact Remap.Agree.pure rfl
  | error failure => exact handled failure

end Attempt.Agree

/-! ## All targets of a place -/

/-- The same outcome, up to the order of candidates. -/
inductive Resolved.Same : Resolved α → Resolved α → Prop where
  | found (value : α) : Same (.found value) (.found value)
  | missing : Same .missing .missing
  | ambiguous {candidates others : List String} (reordered : candidates.Perm others) :
      Same (.ambiguous candidates) (.ambiguous others)

/-- An outcome is the same as itself. -/
theorem Resolved.Same.refl (resolved : Resolved α) : Same resolved resolved := by
  cases resolved with
  | found value => exact .found value
  | missing => exact .missing
  | ambiguous candidates => exact .ambiguous (.refl candidates)

/-- The same choice, up to the order of candidates. -/
structure Choice.Same (first second : Choice α) : Prop where
  chosen : first.chosen = second.chosen
  candidates : Option.Rel List.Perm first.candidates second.candidates

/-- The same choice has the same outcome. -/
theorem Choice.Same.outcome {first second : Choice α} (same : first.Same second) :
    first.outcome.Same second.outcome := by
  unfold Choice.outcome
  rw [same.chosen]
  cases second.chosen with
  | some chosen => exact .found chosen.1
  | none =>
      rcases rel_cases same.candidates with ⟨none, otherNone⟩ | ⟨_, _, some, otherSome, reordered⟩
      · rw [none, otherNone]
        exact .missing
      · rw [some, otherSome]
        exact .ambiguous reordered

namespace Attempt.Agree

/-- After outcomes that are the same, the rest has to agree for each kind of outcome. -/
theorem bindResolved {first second : Attempt (Resolved α)} {rest others : Resolved α → Attempt β}
    (start : Agree Resolved.Same first second)
    (found : ∀ value, Agree Eq (rest (.found value)) (others (.found value)))
    (missing : Agree Eq (rest .missing) (others .missing))
    (ambiguous : ∀ candidates reordered, List.Perm candidates reordered →
      Agree Eq (rest (.ambiguous candidates)) (others (.ambiguous reordered))) :
    Agree Eq (first >>= rest) (second >>= others) := by
  apply start.bind
  intro resolved other same
  cases same with
  | found value => exact found value
  | missing => exact missing
  | ambiguous reordered => exact ambiguous _ _ reordered

/-- Looking through some targets one after the other. -/
theorem chooseFrom [DecidableEq α] [ToString α] {place : Place}
    {lookUp : ClassName → Attempt (Resolved α)}
    (agree : ∀ target, Agree Resolved.Same (lookUp target) (lookUp target)) (targets : List ClassName)
    {first second : Choice α} (same : first.Same second) :
    Agree Choice.Same (MixinLink.chooseFrom place lookUp first targets)
      (MixinLink.chooseFrom place lookUp second targets) := by
  induction targets generalizing first second with
  | nil => exact pure same
  | cons target rest ih =>
      apply (agree target).bind
      intro resolved other sameResolved
      cases sameResolved with
      | missing => exact ih same
      | ambiguous reordered =>
          refine ih ⟨same.chosen, ?_⟩
          rcases rel_cases same.candidates with ⟨none, otherNone⟩ | ⟨_, _, some, otherSome, before⟩
          · rw [none, otherNone]
            exact .some reordered
          · rw [some, otherSome]
            exact .some before
      | found value =>
          have sameChosen := same.chosen
          cases chosen : second.chosen with
          | none =>
              rw [chosen] at sameChosen
              simp only [sameChosen]
              exact ih ⟨rfl, same.candidates⟩
          | some before =>
              rw [chosen] at sameChosen
              simp only [sameChosen]
              by_cases differ : before.1 ≠ value
              · simp only [if_pos differ]
                exact (lift (.report (.refl _))).bindSame fun _ => ih same
              · simp only [if_neg differ]
                exact ih same

/-- Looking through all targets of a place. -/
theorem acrossTargets [DecidableEq α] [ToString α] {place : Place}
    {lookUp : ClassName → Attempt (Resolved α)}
    (agree : ∀ target, Agree Resolved.Same (lookUp target) (lookUp target)) :
    Agree Resolved.Same (MixinLink.acrossTargets place lookUp) (MixinLink.acrossTargets place lookUp) := by
  have nothing : Choice.Same (⟨none, none⟩ : Choice α) ⟨none, none⟩ := ⟨rfl, .none⟩
  exact (chooseFrom agree place.targets nothing).bind fun _ _ same => pure same.outcome

end Attempt.Agree

end MixinLink
