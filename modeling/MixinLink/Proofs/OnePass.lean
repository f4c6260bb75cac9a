import MixinLink.Tiny.Reader

/-!
# Reading lines in one pass

Mapping text is read level by level, and each level leaves the lines that it does not take to the levels
around. The same can be told without levels: the lines are read one after the other, and what is kept
between them is the table and the lines that the next line can be nested in. Both ways of reading give the
same tables and the same failures, for any lines.

The argument is about the level that owns the next line. The open lines are those that the levels around it
are working on, so a level that is done leaves a line with less indentation, and the open lines below that
indentation no longer matter.

Main exports: `Tiny.Progress`, `Tiny.onePass`, `Tiny.rest_of_readClasses`, `Tiny.read_eq_onePass`.
-/

namespace MixinLink.Tiny

/-- A line that the next line can be nested in. -/
structure OpenLine where
  number : Nat
  /-- The class of the line, if it is a class line without indentation. -/
  owner : Option ClassName

/-- The steps that an open line adds to the trail of a failure in a line nested in it. -/
def OpenLine.contexts (line : OpenLine) : List Context :=
  match line.owner with
  | some _ => [.inLine line.number, .classSections]
  | none => [.inLine line.number]

/-- The table read so far, and the open lines from the outermost to the innermost. -/
structure Progress where
  table : Table
  opened : List OpenLine

namespace Progress

/-- Puts the trail of some open lines around a failure. -/
def refuse {α : Type} (opened : List OpenLine) (failure : Failure) : Checked α :=
  .error { failure with trail := .allLines :: (opened.flatMap OpenLine.contexts ++ failure.trail) }

/-- Reads a line whose indentation fits. -/
def readContent (table : Table) (opened : List OpenLine) (line : Line) :
    Checked (Table × Option ClassName) :=
  match opened with
  | [] =>
    if line.head = "c" then do
      let (name, table) ← readClass table line
      return (table, some name)
    else
      return (table, none)
  | [⟨_, some owner⟩] => do
    let table ← readMember table owner line
    return (table, none)
  | _ => return (table, none)

/-- Reads the next line. -/
def step (progress : Progress) (line : Line) : Checked Progress :=
  if progress.opened.length < line.indent then
    refuse progress.opened (.of (.indentation progress.opened.length line))
  else
    let around := progress.opened.take line.indent
    match readContent progress.table around line with
    | .error failure => refuse around (failure.within (.inLine line.number))
    | .ok (table, owner) => .ok { table, opened := around ++ [⟨line.number, owner⟩] }

/-- Reads all lines. A line that is `none` could not be decoded. -/
def run (progress : Progress) : List (Option Line) → Checked Progress
  | [] => .ok progress
  | none :: _ => refuse progress.opened (.of .notUtf8)
  | some line :: lines =>
    match progress.step line with
    | .error failure => .error failure
    | .ok progress => progress.run lines

/-- The table after the lines. -/
def outcome (progress : Progress) (lines : List (Option Line)) : Checked Table := do
  let last ← progress.run lines
  return last.table

end Progress

/-- Reads lines into a table, one after the other. -/
def onePass : List (Option Line) → Checked Table
  | [] => Checked.refuse .noHeader
  | none :: _ => Checked.refuse .notUtf8
  | some header :: lines => do
    let namespaces ← readHeader header
    Progress.outcome ⟨.empty namespaces, []⟩ lines

namespace Progress

variable {table : Table} {opened : List OpenLine} {line : Line} {rest : List (Option Line)}

@[simp] private theorem outcome_nil (progress : Progress) : progress.outcome [] = .ok progress.table := rfl

@[simp] private theorem outcome_none (progress : Progress) (rest : List (Option Line)) :
    progress.outcome (none :: rest) = refuse progress.opened (.of .notUtf8) := rfl

private theorem outcome_of_step {progress next : Progress} (stepped : progress.step line = .ok next) :
    progress.outcome (some line :: rest) = next.outcome rest := by
  rw [outcome, run, stepped]
  rfl

private theorem outcome_of_step_error {progress : Progress} {failure : Failure}
    (stepped : progress.step line = .error failure) :
    progress.outcome (some line :: rest) = .error failure := by
  rw [outcome, run, stepped]
  rfl

private theorem outcome_tooDeep (tooDeep : opened.length < line.indent) :
    outcome ⟨table, opened⟩ (some line :: rest)
      = refuse opened (.of (.indentation opened.length line)) := by
  refine outcome_of_step_error ?_
  rw [step, if_pos tooDeep]
  rfl

/-- A line that is read right below the open lines. -/
theorem step_fitting (fits : line.indent = opened.length) :
    step ⟨table, opened⟩ line
      = match readContent table opened line with
        | .error failure => refuse opened (failure.within (.inLine line.number))
        | .ok (after, owner) => .ok ⟨after, opened ++ [⟨line.number, owner⟩]⟩ := by
  rw [step, if_neg (by simp [fits])]
  simp only [fits, List.take_length]

private theorem outcome_of_readContent (fits : line.indent = opened.length) {after : Table}
    {owner : Option ClassName} (content : readContent table opened line = .ok (after, owner)) :
    outcome ⟨table, opened⟩ (some line :: rest)
      = outcome ⟨after, opened ++ [⟨line.number, owner⟩]⟩ rest := by
  refine outcome_of_step ?_
  rw [step_fitting fits, content]

private theorem outcome_of_readContent_error (fits : line.indent = opened.length) {failure : Failure}
    (content : readContent table opened line = .error failure) :
    outcome ⟨table, opened⟩ (some line :: rest)
      = refuse opened (failure.within (.inLine line.number)) := by
  refine outcome_of_step_error ?_
  rw [step_fitting fits, content]
  rfl

/-- A line does not see the lines that are open deeper than itself. -/
theorem step_append (table : Table) (deeper : List OpenLine) (fits : line.indent ≤ opened.length) :
    step ⟨table, opened ++ deeper⟩ line = step ⟨table, opened⟩ line := by
  have stillFits : ¬ (opened ++ deeper).length < line.indent := by
    rw [List.length_append]
    omega
  rw [step, step, if_neg stillFits, if_neg (Nat.not_lt.2 fits)]
  simp only [List.take_append_of_le_length fits]

end Progress

/-! ## The end of a level -/

/-- No line is left, or the next one is indented less. -/
def EndsBelow (depth : Nat) (rest : List (Option Line)) : Prop :=
  ∀ next ∈ rest.head?, ∃ line, next = some line ∧ line.indent < depth

/-- No line is indented less than not at all. -/
theorem EndsBelow.eq_nil {rest : List (Option Line)} (ends : EndsBelow 0 rest) : rest = [] := by
  cases rest with
  | nil => rfl
  | cons next rest =>
      obtain ⟨line, _, below⟩ := ends next rfl
      exact absurd below (Nat.not_lt_zero _)

/-- After the end of a level, the lines that are open in it no longer matter. -/
theorem EndsBelow.outcome_append {opened deeper : List OpenLine} {rest : List (Option Line)}
    (ends : EndsBelow (opened.length + 1) rest) (table : Table) :
    Progress.outcome ⟨table, opened ++ deeper⟩ rest = Progress.outcome ⟨table, opened⟩ rest := by
  cases rest with
  | nil => rfl
  | cons next rest =>
      obtain ⟨line, rfl, below⟩ := ends next rfl
      have same := Progress.step_append table deeper (Nat.le_of_lt_succ below)
      rw [Progress.outcome, Progress.outcome, Progress.run, Progress.run, same]

namespace Level

variable {level after : Level}

private theorem endsBelow_of_next (ended : level.next = .ok none) : EndsBelow level.depth level.lines := by
  unfold next at ended
  intro first isFirst
  split at ended
  · simp_all
  · cases ended
  · rename_i line rest isLines
    split at ended
    · rename_i less
      rw [isLines] at isFirst
      exact ⟨line, (Option.some.inj isFirst).symm, Nat.compare_eq_lt.1 less⟩
    · cases ended
    · cases ended

private theorem fits_of_next {line : Line} (taken : level.next = .ok (some (line, after))) :
    line.indent = level.depth ∧ after.depth = level.depth := by
  unfold next at taken
  split at taken
  · cases taken
  · cases taken
  · split at taken
    · cases taken
    · rename_i same
      cases taken
      exact ⟨Nat.compare_eq_eq.1 same, rfl⟩
    · cases taken

/-- Where a level finds no line that fits, the pass fails in the same way. -/
theorem outcome_of_next_error {opened : List OpenLine} (isDepth : level.depth = opened.length)
    {failure : Failure} (failed : level.next = .error failure) (table : Table) :
    Progress.outcome ⟨table, opened⟩ level.lines = Progress.refuse opened failure := by
  unfold next at failed
  split at failed
  · cases failed
  · rename_i isLines
    cases failed
    rw [isLines, Progress.outcome_none]
  · rename_i isLines
    split at failed
    · cases failed
    · cases failed
    · rename_i greater
      cases failed
      have tooDeep := Nat.compare_eq_gt.1 greater
      rw [isDepth] at tooDeep ⊢
      rw [isLines, Progress.outcome_tooDeep tooDeep]

end Level

/-! ## Levels and open lines -/

/-- What comes of reading some lines on a level below some open lines, told by the outcome of the
pass over these lines and all that follow: the level fails as the pass does, or it leaves a line
with less than the given indentation, from where the pass goes on with the same open lines. -/
def Follows {σ : Type} {lines : List (Option Line)} (tableOf : σ → Table) (opened : List OpenLine)
    (depth : Nat) (outcome : Checked Table) : Checked (Remainder σ lines) → Prop
  | .error failure => outcome = Progress.refuse opened failure
  | .ok left => EndsBelow depth left.rest
      ∧ outcome = Progress.outcome ⟨tableOf left.state, opened⟩ left.rest

section Follows

variable {σ : Type} {lines : List (Option Line)} {tableOf : σ → Table} {opened : List OpenLine}
  {outcome : Checked Table}

/-- Closes an open line: its steps come around the failure, and what was below it does not matter. -/
theorem Follows.close {line : OpenLine} {result : Checked (Remainder σ lines)}
    (follows : Follows tableOf (opened ++ [line]) (opened.length + 1) outcome result) :
    Follows tableOf opened (opened.length + 1) outcome
      (line.contexts.foldr Checked.within result) := by
  cases result with
  | error failure =>
      obtain ⟨number, owner⟩ := line
      rw [show outcome = _ from follows]
      cases owner with
      | none => simp [Follows, OpenLine.contexts, Checked.within, Failure.within, Progress.refuse]
      | some owner => simp [Follows, OpenLine.contexts, Checked.within, Failure.within, Progress.refuse]
  | ok left =>
      have untouched : line.contexts.foldr Checked.within (.ok left : Checked (Remainder σ lines))
          = .ok left := by
        generalize line.contexts = contexts
        induction contexts with
        | nil => rfl
        | cons context contexts ih => rw [List.foldr_cons, ih]; rfl
      rw [untouched]
      exact ⟨follows.1, follows.2.trans (follows.1.outcome_append _)⟩

/-- What is left of other lines can be told in the same way. -/
theorem Follows.map {τ : Type} {others : List (Option Line)} {stateTable : τ → Table} {depth : Nat}
    {result : Checked (Remainder σ lines)} {next : Remainder σ lines → Remainder τ others}
    (follows : Follows tableOf opened depth outcome result)
    (same : ∀ left, (next left).rest = left.rest ∧ stateTable (next left).state = tableOf left.state) :
    Follows stateTable opened depth outcome (do return next (← result)) := by
  cases result with
  | error failure => exact follows
  | ok left =>
      obtain ⟨sameRest, sameTable⟩ := same left
      refine ⟨?_, ?_⟩
      · rw [sameRest]
        exact follows.1
      · rw [sameRest, sameTable]
        exact follows.2

/-- What is done with a line of a level agrees with the pass, whatever was read before. -/
def BodyFollows (tableOf : σ → Table) (opened : List OpenLine) {level : Level}
    (read : (after : Level) → after.lines.length < level.lines.length → σ → Line →
      Checked (Remainder σ after.lines)) : Prop :=
  ∀ after fewer state line, after.depth = opened.length → line.indent = opened.length →
    Follows tableOf opened (opened.length + 1)
      (Progress.outcome ⟨tableOf state, opened⟩ (some line :: after.lines))
      (Checked.within (.inLine line.number) (read after fewer state line))

/-- A level that does with each of its lines what the pass does agrees with the pass as a whole. -/
theorem follows_forEachLine {level : Level}
    {read : (after : Level) → after.lines.length < level.lines.length → σ → Line →
      Checked (Remainder σ after.lines)}
    (isDepth : level.depth = opened.length) (body : BodyFollows tableOf opened read) (state : σ) :
    Follows tableOf opened opened.length (Progress.outcome ⟨tableOf state, opened⟩ level.lines)
      (level.forEachLine read state) := by
  fun_induction Level.forEachLine level read state with
  | case1 level read state failure failed => exact Level.outcome_of_next_error isDepth failed _
  | case2 level read state ended => exact ⟨isDepth ▸ Level.endsBelow_of_next ended, rfl⟩
  | case3 level read state line after taken fewer ih =>
      obtain ⟨fits, sameDepth⟩ := Level.fits_of_next taken
      have here := body after fewer state line (sameDepth.trans isDepth) (fits.trans isDepth)
      rw [← Level.lines_of_next taken] at here
      cases below : Checked.within (.inLine line.number) (read after fewer state line) with
      | error failure =>
          rw [below] at here
          exact here
      | ok left =>
          rw [below] at here
          have later := ih left isDepth fun other shorter => body other _
          rw [← here.2] at later
          exact later.map fun _ => ⟨rfl, rfl⟩

end Follows

/-! ## The levels of the reader -/

section Levels

variable {opened : List OpenLine}

/-- Nothing is read below a line that is no class line. -/
theorem Progress.readContent_below (opened : List OpenLine) (number : Nat) (table : Table) (line : Line) :
    readContent table (opened ++ [⟨number, none⟩]) line = .ok (table, none) := by
  rcases opened with _ | ⟨⟨_, _ | owner⟩, others⟩
  · rfl
  · simp [readContent, Checked.pure_eq_ok]
  · cases others with
    | nil => rfl
    | cons second others => simp [readContent, Checked.pure_eq_ok]

/-- Passing over the lines below a line is what the pass does there. -/
theorem follows_skipAll {level : Level} (isDepth : level.depth = opened.length + 1) (number : Nat)
    (table : Table) :
    Follows (fun _ => table) (opened ++ [⟨number, none⟩]) (opened.length + 1)
      (Progress.outcome ⟨table, opened ++ [⟨number, none⟩]⟩ level.lines) level.skipAll := by
  fun_induction Level.skipAll level generalizing opened number with
  | case1 level ih =>
      have isLength : (opened ++ [OpenLine.mk number none]).length = opened.length + 1 := by simp
      rw [← isLength]
      refine follows_forEachLine (isDepth.trans isLength.symm)
        (fun after fewer _ line sameDepth fits => ?_) ()
      rw [Progress.outcome_of_readContent fits (Progress.readContent_below opened number table line)]
      exact (ih after fewer (by rw [Level.nested, sameDepth]) line.number).close

/-- A line that is no class line, with the lines below it that are passed over. -/
theorem follows_skipped {after : Level} {line : Line} {before table : Table}
    (isDepth : after.depth = opened.length) (fits : line.indent = opened.length)
    (content : Progress.readContent before opened line = .ok (table, none)) :
    Follows id opened (opened.length + 1) (Progress.outcome ⟨before, opened⟩ (some line :: after.lines))
      (Checked.within (.inLine line.number) (do return (← after.nested.skipAll).withState table)) := by
  rw [Progress.outcome_of_readContent fits content]
  have isNested : after.nested.depth = opened.length + 1 := by rw [Level.nested, isDepth]
  have skipped := follows_skipAll isNested line.number table
  have below : Follows id (opened ++ [⟨line.number, none⟩]) _ _
      (do return (← after.nested.skipAll).withState table) := skipped.map fun _ => ⟨rfl, rfl⟩
  exact below.close

/-- The lines below a class line. -/
theorem follows_readMembers {level : Level} (isDepth : level.depth = 1) (number : Nat) (owner : ClassName)
    (table : Table) :
    Follows id [⟨number, some owner⟩] 1 (Progress.outcome ⟨table, [⟨number, some owner⟩]⟩ level.lines)
      (readMembers owner level table) := by
  refine follows_forEachLine isDepth (fun after fewer table line sameDepth fits => ?_) table
  cases member : readMember table owner line with
  | error failure =>
      refine Progress.outcome_of_readContent_error fits ?_
      rw [Progress.readContent, id, member]
      rfl
  | ok read =>
      refine follows_skipped sameDepth fits ?_
      rw [Progress.readContent, id, member]
      rfl

/-- The lines without indentation. -/
theorem follows_readClasses (level : Level) (isDepth : level.depth = 0) (table : Table) :
    Follows id [] 0 (Progress.outcome ⟨table, []⟩ level.lines) (readClasses level table) := by
  refine follows_forEachLine isDepth (fun after fewer table line sameDepth fits => ?_) table
  by_cases isClass : line.head = "c"
  · rw [if_pos isClass]
    cases read : readClass table line with
    | error failure =>
        refine Progress.outcome_of_readContent_error fits ?_
        rw [Progress.readContent, if_pos isClass, id, read]
        rfl
    | ok result =>
        obtain ⟨name, next⟩ := result
        have content : Progress.readContent table [] line = .ok (next, some name) := by
          rw [Progress.readContent, if_pos isClass, read]
          rfl
        rw [id, Progress.outcome_of_readContent fits content]
        have isNested : after.nested.depth = 1 := by rw [Level.nested, sameDepth]; rfl
        have members : Follows id ([] ++ [⟨line.number, some name⟩]) 1 _ _ :=
          follows_readMembers isNested line.number name next
        exact members.close
  · rw [if_neg isClass]
    refine follows_skipped sameDepth fits ?_
    rw [Progress.readContent, if_neg isClass]
    rfl

end Levels

/-! ## The reader as a whole -/

/-- No line is left when the level without indentation ends. -/
theorem rest_of_readClasses {lines : List (Option Line)} {table : Table}
    {left : Remainder Table (Level.mk 0 lines).lines}
    (success : readClasses ⟨0, lines⟩ table = .ok left) : left.rest = [] := by
  have follows := follows_readClasses ⟨0, lines⟩ rfl table
  rw [success] at follows
  exact follows.1.eq_nil

/-- Reading level by level gives what reading in one pass gives, table or failure. -/
theorem read_eq_onePass (lines : List (Option Line)) : read lines = onePass lines := by
  rcases lines with _ | ⟨_ | header, lines⟩
  · rfl
  · rfl
  · rw [read, onePass]
    refine bind_congr fun namespaces => ?_
    have follows := follows_readClasses ⟨0, lines⟩ rfl (.empty namespaces)
    cases classes : readClasses ⟨0, lines⟩ (.empty namespaces) with
    | error failure =>
        rw [classes] at follows
        rw [show Progress.outcome _ lines = _ from follows]
        rfl
    | ok left =>
        have atEnd := rest_of_readClasses classes
        rw [classes] at follows
        rw [show Progress.outcome _ lines = _ from follows.2, atEnd]
        simp only [Checked.within, bind, Except.bind, atEnd]
        rfl

end MixinLink.Tiny
