import MixinLink.Failure

/-!
# Levels of indentation

Mapping text is read level by level. A level consists of the lines of one indentation, each with the lines
that are nested deeper below it, and ends where a line with less indentation comes: that line is left to the
levels around. What is done with a line reads the lines below it, or passes over them.

Main exports: `Tiny.Level`, `Tiny.Level.next`, `Tiny.Level.forEachLine`, `Tiny.Level.skipAll`.
-/

namespace MixinLink.Tiny

/-- What was made of some lines, and the lines that are left of them. -/
structure Remainder (σ : Type) (lines : List (Option Line)) where
  state : σ
  rest : List (Option Line)
  isEnd : rest <:+ lines

/-- The same lines are left, with something else made of those before. -/
def Remainder.withState {σ τ : Type} {lines : List (Option Line)} (left : Remainder σ lines) (state : τ) :
    Remainder τ lines :=
  { left with state }

/-- A level of indentation, at the lines that are still to be read. A line that is `none` could not be
decoded. -/
structure Level where
  depth : Nat
  lines : List (Option Line)

namespace Level

/-- The level below the last line that was taken. -/
abbrev nested (level : Level) : Level :=
  { level with depth := level.depth + 1 }

/-- Takes the next line, `none` if the level ends. -/
def next (level : Level) : Checked (Option (Line × Level)) :=
  match level.lines with
  | [] => .ok none
  | none :: _ => Checked.refuse .notUtf8
  | some line :: rest =>
    match compare line.indent level.depth with
    | .lt => .ok none
    | .eq => .ok (some (line, { level with lines := rest }))
    | .gt => Checked.refuse (.indentation level.depth line)

/-- The line that is taken is the first one. -/
theorem lines_of_next {level after : Level} {line : Line} (taken : level.next = .ok (some (line, after))) :
    level.lines = some line :: after.lines := by
  unfold next at taken
  split at taken
  · cases taken
  · cases taken
  · rename_i isLines
    split at taken
    · cases taken
    · cases taken
      exact isLines
    · cases taken

private theorem length_of_next {level after : Level} {line : Line}
    (taken : level.next = .ok (some (line, after))) :
    after.lines.length < level.lines.length := by
  rw [lines_of_next taken, List.length_cons]
  exact Nat.lt_succ_self _

/-- Does something with each line of the level, which has to read the lines below it. -/
def forEachLine {σ : Type} (level : Level)
    (read : (after : Level) → after.lines.length < level.lines.length → σ → Line →
      Checked (Remainder σ after.lines))
    (state : σ) : Checked (Remainder σ level.lines) :=
  match taken : level.next with
  | .error failure => .error failure
  | .ok none => .ok ⟨state, level.lines, List.suffix_refl _⟩
  | .ok (some (line, after)) => do
    have fewer := length_of_next taken
    let below ← Checked.within (.inLine line.number) (read after fewer state line)
    have fewerStill := Nat.lt_of_le_of_lt below.isEnd.length_le fewer
    let left ← forEachLine { level with lines := below.rest }
      (fun other shorter => read other (Nat.lt_trans shorter fewerStill)) below.state
    return ⟨left.state, left.rest, by
      rw [lines_of_next taken]
      exact (left.isEnd.trans below.isEnd).trans (List.suffix_cons _ _)⟩
termination_by level.lines.length

/-- Passes over all lines of the level, and all lines that are nested deeper. -/
def skipAll (level : Level) : Checked (Remainder Unit level.lines) :=
  level.forEachLine (fun after _ _ _ => after.nested.skipAll) ()
termination_by level.lines.length

end Level

end MixinLink.Tiny
