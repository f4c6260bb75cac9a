import Mathlib.Data.List.Chain
import Mathlib.Data.List.Forall2
import MixinLink.Proofs.Statements

/-!
# Lines that count

Reading level by level comes to one pass over the lines, which keeps the lines that the next line
can be nested in. What it does can be told without them, line by line: only class lines without
indentation count, and member lines with one tab whose nearest line without indentation is a class
line. Reading succeeds if the header is one, no line is indented too far, and each line that counts
is well formed; the table is then what these lines say, one after the other. No line is left in the
end.

Main exports: `Tiny.PlacedLine`, `Tiny.countingBelow`, `Tiny.run_eq_ok`, `Tiny.WellFormed`, `Tiny.ReadsFlat`,
`Tiny.reads_flat`.
-/

namespace MixinLink.Tiny

/-! ## Lines that count -/

/-- A line with the nearest line without indentation before it. -/
structure PlacedLine where
  above : Option Line
  line : Line

namespace PlacedLine

/-- The nearest line without indentation for the line after this one. -/
def aboveNext (placed : PlacedLine) : Option Line :=
  if placed.line.indent = 0 then some placed.line else placed.above

/-- The line is not passed over. -/
def counts (placed : PlacedLine) : Bool :=
  if placed.line.indent = 0 then placed.line.head = "c"
  else placed.line.indent = 1 && placed.above.any (·.head = "c")
    && (placed.line.head = "f" || placed.line.head = "m")

private theorem counts_eq_true {placed : PlacedLine} :
    placed.counts = true
      ↔ placed.line.indent = 0 ∧ placed.line.head = "c"
        ∨ placed.line.indent = 1 ∧ (∃ top, placed.above = some top ∧ top.head = "c")
          ∧ (placed.line.head = "f" ∨ placed.line.head = "m") := by
  by_cases isTop : placed.line.indent = 0
  · simp [counts, isTop]
  · simp [counts, isTop, Option.any_eq_true, and_assoc]

end PlacedLine

/-- Puts lines in their places, below some line without indentation. -/
def placedBelow (above : Option Line) : List Line → List PlacedLine
  | [] => []
  | line :: lines => ⟨above, line⟩ :: placedBelow (PlacedLine.aboveNext ⟨above, line⟩) lines

/-- The line is well formed and says this. -/
inductive PlacedLine.Says : PlacedLine → Statement → Prop where
  | named {placed : PlacedLine} {name : ClassName} {mapped : Option ClassName}
      (indent : placed.line.indent = 0) (told : placed.line.TellsClass name mapped) :
      Says placed (.named name mapped)
  | member {placed : PlacedLine} {top : Line} {owner : ClassName} {mapped : Option ClassName}
      {row : MemberRow} (indent : placed.line.indent = 1) (above : placed.above = some top)
      (owned : top.TellsClass owner mapped)
      (told : placed.line.TellsMember row) : Says placed (.member owner row)

/-! ## One line -/

/-- What one line says, if it counts. -/
def PlacedLine.Tells (placed : PlacedLine) (statements : List Statement) : Prop :=
  List.Forall₂ PlacedLine.Says ([placed].filter PlacedLine.counts) statements

private theorem tells_of_counts {placed : PlacedLine} (counted : placed.counts = true)
    {statements : List Statement} :
    placed.Tells statements ↔ ∃ statement, placed.Says statement ∧ statements = [statement] := by
  rw [PlacedLine.Tells, List.filter_cons_of_pos counted, List.filter_nil, List.forall₂_cons_left_iff]
  simp only [List.forall₂_nil_left_iff]
  constructor
  · rintro ⟨statement, _, told, rfl, rfl⟩
    exact ⟨statement, told, rfl⟩
  · rintro ⟨statement, told, rfl⟩
    exact ⟨statement, [], told, rfl, rfl⟩

private theorem tells_of_not_counts {placed : PlacedLine} (passed : ¬placed.counts = true)
    {statements : List Statement} :
    placed.Tells statements ↔ statements = [] := by
  rw [PlacedLine.Tells, List.filter_cons_of_neg passed, List.filter_nil, List.forall₂_nil_left_iff]

/-- The open lines of the pass start with the nearest line without indentation, and with its class if it is a
class line. -/
inductive StartsWith : Option Line → List OpenLine → Prop where
  | nothing : StartsWith none []
  | owner {top : Line} {name : ClassName} {mapped : Option ClassName} (isClass : top.head = "c")
      (told : top.TellsClass name mapped) (number : Nat) (more : List OpenLine) :
      StartsWith (some top) (⟨number, some name⟩ :: more)
  | other {top : Line} (isOther : top.head ≠ "c") (number : Nat) (more : List OpenLine) :
      StartsWith (some top) (⟨number, none⟩ :: more)

/-- The first field is the name. -/
theorem NameFields.head {α : Type} {text : α → String} {fields : List String} {name : α} {mapped : Option α}
    (written : NameFields text fields name mapped) : fields.head? = some (text name) := by
  cases written with
  | single => rfl
  | empty => rfl
  | named => rfl

/-- A class line tells about one class only. -/
theorem Line.TellsClass.unique {line : Line} {name other : ClassName} {mapped seen : Option ClassName}
    (first : line.TellsClass name mapped) (second : line.TellsClass other seen) : name = other :=
  ClassName.ext_text (Option.some.inj (first.fields.head.symm.trans second.fields.head))

/-- The class of an open line that is made from this line. -/
def Line.Opens (line : Line) (owner : Option ClassName) : Prop :=
  if line.indent = 0 then StartsWith (some line) [⟨line.number, owner⟩] else owner = none

private theorem PlacedLine.Tells.exists_opens {placed : PlacedLine} {statements : List Statement}
    (told : placed.Tells statements) : ∃ owner, placed.line.Opens owner := by
  by_cases isTop : placed.line.indent = 0
  · simp only [Line.Opens, isTop, if_true]
    by_cases isClass : placed.line.head = "c"
    · have counted : placed.counts = true := by simp [PlacedLine.counts, isTop, isClass]
      obtain ⟨statement, toldOne, _⟩ := (tells_of_counts counted).1 told
      cases toldOne with
      | named _ toldClass => exact ⟨_, .owner isClass toldClass _ _⟩
      | member indent => exact absurd (indent.symm.trans isTop) (by decide)
    · exact ⟨none, .other isClass _ _⟩
  · simp only [Line.Opens, isTop, if_false]
    exact ⟨none, rfl⟩

/-- Reading the line makes one table of another: what it says is added, if it counts. -/
def PlacedLine.LeadsTo (placed : PlacedLine) (table after : Table) : Prop :=
  ∃ statements, placed.Tells statements ∧ after = statements.foldl Statement.apply table

private theorem leadsTo_of_counts {placed : PlacedLine} (counted : placed.counts = true)
    {table after : Table} :
    placed.LeadsTo table after ↔ ∃ statement, placed.Says statement ∧ after = statement.apply table := by
  simp only [PlacedLine.LeadsTo, tells_of_counts counted]
  constructor
  · rintro ⟨_, ⟨statement, told, rfl⟩, rfl⟩
    exact ⟨statement, told, rfl⟩
  · rintro ⟨statement, told, rfl⟩
    exact ⟨_, ⟨statement, told, rfl⟩, rfl⟩

private theorem leadsTo_of_not_counts {placed : PlacedLine} (passed : ¬placed.counts = true)
    {table after : Table} :
    placed.LeadsTo table after ↔ after = table := by
  simp [PlacedLine.LeadsTo, tells_of_not_counts passed]

section Content

variable {table after : Table} {above : Option Line} {opened : List OpenLine} {line : Line}
  {owner : Option ClassName}

/-- A line that does not count changes nothing. -/
theorem passes_over (passed : ¬(⟨above, line⟩ : PlacedLine).counts = true) :
    (pure (table, none) : Checked (Table × Option ClassName)) = .ok (after, owner)
      ↔ (⟨above, line⟩ : PlacedLine).LeadsTo table after ∧ owner = none := by
  rw [Checked.pure_eq_ok, leadsTo_of_not_counts passed, Prod.mk.injEq, eq_comm, @eq_comm _ none]

private theorem readContent_top (sound : table.Sound) (top : line.indent = 0) :
    Progress.readContent table [] line = .ok (after, owner)
      ↔ (⟨above, line⟩ : PlacedLine).LeadsTo table after
        ∧ StartsWith (some line) [⟨line.number, owner⟩] := by
  have counts : (⟨above, line⟩ : PlacedLine).counts = true ↔ line.head = "c" := by
    simp [PlacedLine.counts, top]
  by_cases isClass : line.head = "c"
  · simp only [Progress.readContent, isClass, if_true, Checked.bind_eq_ok, readClass_eq_ok sound,
      Checked.pure_eq_ok, leadsTo_of_counts (counts.2 isClass)]
    constructor
    · rintro ⟨_, ⟨name, mapped, told, rfl⟩, ⟨⟩⟩
      exact ⟨⟨_, .named top told, rfl⟩, .owner isClass told line.number []⟩
    · rintro ⟨⟨statement, told, rfl⟩, starts⟩
      cases told with
      | named _ told =>
          cases starts with
          | owner _ again =>
              rw [again.unique told]
              exact ⟨_, ⟨_, _, told, rfl⟩, rfl⟩
          | other isOther => exact absurd isClass isOther
      | member indent => exact absurd (indent.symm.trans top) (by decide)
  · simp only [Progress.readContent, isClass, if_false, Checked.pure_eq_ok,
      leadsTo_of_not_counts (mt counts.1 isClass)]
    constructor
    · rintro ⟨⟩
      exact ⟨rfl, .other isClass line.number []⟩
    · rintro ⟨rfl, starts⟩
      cases starts with
      | owner isClass' => exact absurd isClass' isClass
      | other => rfl

/-- Reading a line with one tab. -/
theorem readContent_below (starts : StartsWith above opened) (below : line.indent = 1)
    (fits : line.indent ≤ opened.length) :
    Progress.readContent table (opened.take 1) line = .ok (after, owner)
      ↔ (⟨above, line⟩ : PlacedLine).LeadsTo table after ∧ owner = none := by
  cases starts with
  | nothing => simp [below] at fits
  | @owner top name mapped isClass told number more =>
      have counts : (⟨some top, line⟩ : PlacedLine).counts = true ↔ line.head = "f" ∨ line.head = "m" := by
        simp [PlacedLine.counts, below, isClass]
      by_cases counted : line.head = "f" ∨ line.head = "m"
      · simp only [Progress.readContent, List.take_succ_cons, List.take_zero, Checked.bind_eq_ok,
          readMember_eq_ok, Checked.pure_eq_ok, leadsTo_of_counts (counts.2 counted)]
        constructor
        · rintro ⟨_, ⟨notField, notMethod, _⟩ | ⟨row, toldMember, rfl⟩, ⟨⟩⟩
          · exact absurd counted (not_or.2 ⟨notField, notMethod⟩)
          · exact ⟨⟨_, .member below rfl told toldMember, rfl⟩, rfl⟩
        · rintro ⟨⟨statement, toldMember, rfl⟩, rfl⟩
          cases toldMember with
          | named indent => exact absurd (indent.symm.trans below) (by decide)
          | member _ isAbove owned toldMember =>
              cases isAbove
              rw [owned.unique told]
              exact ⟨_, .inr ⟨_, toldMember, rfl⟩, rfl⟩
      · have other : readMember table name line = .ok table := by
          refine readMember_eq_ok.2 (.inl ⟨?_, ?_, rfl⟩)
          · exact fun isField => counted (.inl isField)
          · exact fun isMethod => counted (.inr isMethod)
        simp only [Progress.readContent, List.take_succ_cons, List.take_zero, other]
        exact passes_over (mt counts.1 counted)
  | @other top isOther number more =>
      refine passes_over ?_
      simp [PlacedLine.counts, below, isOther]

private theorem readContent_deep {around : List OpenLine} (deep : 2 ≤ line.indent)
    (fits : around.length = line.indent) :
    Progress.readContent table around line = .ok (after, owner)
      ↔ (⟨above, line⟩ : PlacedLine).LeadsTo table after ∧ owner = none := by
  have passed : ¬(⟨above, line⟩ : PlacedLine).counts = true := by
    have notTop : line.indent ≠ 0 := by omega
    have notBelow : line.indent ≠ 1 := by omega
    simp [PlacedLine.counts, notTop, notBelow]
  obtain ⟨first, second, more, rfl⟩ : ∃ first second more, around = first :: second :: more := by
    rcases around with _ | ⟨first, _ | ⟨second, more⟩⟩
    · simp at fits; omega
    · simp at fits; omega
    · exact ⟨first, second, more, rfl⟩
  simp only [Progress.readContent]
  exact passes_over passed

/-- Reading a line whose indentation fits. -/
theorem readContent_eq_ok (sound : table.Sound) (starts : StartsWith above opened)
    (fits : line.indent ≤ opened.length) :
    Progress.readContent table (opened.take line.indent) line = .ok (after, owner)
      ↔ (⟨above, line⟩ : PlacedLine).LeadsTo table after ∧ line.Opens owner := by
  -- only the first open line is looked at, and only by lines with one tab
  rcases Nat.lt_trichotomy line.indent 1 with top | below | deep
  · have isTop : line.indent = 0 := by omega
    rw [Line.Opens, if_pos isTop, isTop, List.take_zero]
    exact readContent_top sound isTop
  · have nested : line.indent ≠ 0 := by omega
    rw [Line.Opens, if_neg nested, below]
    exact readContent_below starts below fits
  · have nested : line.indent ≠ 0 := by omega
    rw [Line.Opens, if_neg nested]
    exact readContent_deep deep (List.length_take_of_le fits)

end Content

/-! ## All lines -/

/-- The lines that count, with the nearest lines without indentation before them. -/
def countingBelow (above : Option Line) (lines : List Line) : List PlacedLine :=
  (placedBelow above lines).filter PlacedLine.counts

private theorem forall₂_countingBelow_cons {above : Option Line} {line : Line} {lines : List Line}
    {statements : List Statement} :
    List.Forall₂ PlacedLine.Says (countingBelow above (line :: lines)) statements
      ↔ ∃ first others, (⟨above, line⟩ : PlacedLine).Tells first
        ∧ List.Forall₂ PlacedLine.Says (countingBelow (PlacedLine.aboveNext ⟨above, line⟩) lines) others
        ∧ statements = first ++ others := by
  rw [countingBelow, placedBelow]
  by_cases counted : (⟨above, line⟩ : PlacedLine).counts = true
  · rw [List.filter_cons_of_pos counted, List.forall₂_cons_left_iff]
    simp only [tells_of_counts counted]
    constructor
    · rintro ⟨statement, others, told, toldLater, rfl⟩
      exact ⟨[statement], others, ⟨statement, told, rfl⟩, toldLater, rfl⟩
    · rintro ⟨_, others, ⟨statement, told, rfl⟩, toldLater, rfl⟩
      exact ⟨statement, others, told, toldLater, rfl⟩
  · rw [List.filter_cons_of_neg counted]
    simp only [tells_of_not_counts counted]
    constructor
    · intro toldLater
      exact ⟨[], statements, rfl, toldLater, rfl⟩
    · rintro ⟨_, _, rfl, toldLater, rfl⟩
      exact toldLater

/-- Afterwards the open lines start with the nearest line without indentation again. -/
theorem startsWith_next {above : Option Line} {opened : List OpenLine} {line : Line}
    {owner : Option ClassName}
    (starts : StartsWith above opened) (fits : line.indent ≤ opened.length) (opens : line.Opens owner) :
    StartsWith (PlacedLine.aboveNext ⟨above, line⟩) (opened.take line.indent ++ [⟨line.number, owner⟩]) := by
  unfold Line.Opens at opens
  by_cases isTop : line.indent = 0
  · rw [if_pos isTop] at opens
    simpa [PlacedLine.aboveNext, isTop] using opens
  · rw [if_neg isTop] at opens
    obtain ⟨deeper, isDeeper⟩ := Nat.exists_eq_succ_of_ne_zero isTop
    simp only [PlacedLine.aboveNext, isTop, if_false]
    rw [isDeeper]
    cases starts with
    | nothing => simp [isDeeper] at fits
    | owner isClass told => exact .owner isClass told _ _
    | other isOther => exact .other isOther _ _

/-- Reading lines succeeds if none of them is indented too far and those that count are well formed,
and gives what they say. -/
theorem run_eq_ok {progress : Progress} (sound : progress.table.Sound) {above : Option Line}
    (starts : StartsWith above progress.opened) {lines : List (Option Line)} {table : Table} :
    (∃ opened, progress.run lines = .ok ⟨table, opened⟩)
      ↔ ∃ body statements, lines = body.map some
        ∧ (∀ first ∈ body.head?, first.indent ≤ progress.opened.length)
        ∧ body.IsChain (fun line next => next.indent ≤ line.indent + 1)
        ∧ List.Forall₂ PlacedLine.Says (countingBelow above body) statements
        ∧ table = statements.foldl Statement.apply progress.table := by
  -- after a line there is one open line more than the line has tabs, which is how far the next one may go
  induction lines generalizing progress above with
  | nil =>
      constructor
      · rintro ⟨_, ⟨⟩⟩
        exact ⟨[], [], rfl, by simp, .nil, .nil, rfl⟩
      · rintro ⟨body, statements, split, _, _, told, rfl⟩
        cases List.map_eq_nil_iff.1 split.symm
        cases told
        exact ⟨progress.opened, rfl⟩
  | cons line lines ih =>
      constructor
      · rintro ⟨opened, success⟩
        obtain ⟨content, next, rfl, stepped, rest⟩ := Progress.run_cons_eq_ok.1 success
        have nextSound := sound_of_step sound stepped
        obtain ⟨fits, _, owner, read, rfl⟩ := Progress.step_eq_ok.1 stepped
        obtain ⟨⟨first, told, rfl⟩, opens⟩ := (readContent_eq_ok sound starts fits).1 read
        obtain ⟨body, others, rfl, firstFits, chain, toldLater, rfl⟩ :=
          (ih nextSound (startsWith_next starts fits opens)).1 ⟨opened, rest⟩
        rw [List.length_append, List.length_take_of_le fits, List.length_singleton] at firstFits
        refine ⟨content :: body, first ++ others, rfl, ?_, List.isChain_cons.2 ⟨firstFits, chain⟩, ?_, ?_⟩
        · rintro _ ⟨⟩
          exact fits
        · exact forall₂_countingBelow_cons.2 ⟨first, others, told, toldLater, rfl⟩
        · rw [List.foldl_append]
      · rintro ⟨_ | ⟨content, body⟩, statements, split, firstFits, chain, toldAll, rfl⟩
        · cases split
        cases split
        obtain ⟨first, others, told, toldLater, rfl⟩ := forall₂_countingBelow_cons.1 toldAll
        have fits : content.indent ≤ progress.opened.length := firstFits content rfl
        obtain ⟨laterFits, laterChain⟩ := List.isChain_cons.1 chain
        obtain ⟨owner, opens⟩ := told.exists_opens
        have read := (readContent_eq_ok sound starts fits).2 ⟨⟨first, told, rfl⟩, opens⟩
        have stepped := Progress.step_eq_ok.2 ⟨fits, _, owner, read, rfl⟩
        have nextSound := sound_of_step sound stepped
        obtain ⟨opened, rest⟩ := (ih nextSound (startsWith_next starts fits opens)).2
          ⟨body, others, rfl, by simpa [fits] using laterFits, laterChain, toldLater, List.foldl_append⟩
        exact ⟨opened, Progress.run_cons_eq_ok.2 ⟨content, _, rfl, stepped, rest⟩⟩

/-! ## Reading texts -/

private theorem head?_trail_refuse {α : Type} {opened : List OpenLine} {failure refused : Failure}
    (isRefused : (Progress.refuse opened failure : Checked α) = .error refused) :
    refused.trail.head? = some .allLines := by
  cases isRefused
  rfl

/-- A failure of the pass always comes from some line. -/
theorem Progress.head?_trail_of_run {progress : Progress} {lines : List (Option Line)} {failure : Failure}
    (failed : progress.run lines = .error failure) : failure.trail.head? = some .allLines := by
  induction lines generalizing progress with
  | nil => cases failed
  | cons line lines ih =>
      cases line with
      | none => exact head?_trail_refuse failed
      | some line =>
          rw [run] at failed
          cases stepped : progress.step line with
          | ok next =>
              rw [stepped] at failed
              exact ih failed
          | error stepFailure =>
              rw [stepped] at failed
              cases failed
              unfold step at stepped
              split at stepped
              · exact head?_trail_refuse stepped
              · dsimp only at stepped
                split at stepped
                · exact head?_trail_refuse stepped
                · cases stepped

/-- The lines after a header can be read: none is indented by more than one tab more than the line
before it, and those that count are well formed. -/
structure WellFormed (body : List Line) : Prop where
  starts : ∀ first ∈ body.head?, first.indent = 0
  nests : body.IsChain fun line next => next.indent ≤ line.indent + 1
  classes : ∀ line ∈ body, line.indent = 0 → line.head = "c" → ∃ name mapped, line.TellsClass name mapped
  members : ∀ placed ∈ placedBelow none body, placed.line.indent = 1 →
    (∃ top, placed.above = some top ∧ top.head = "c") → placed.line.head = "f" ∨ placed.line.head = "m" →
      ∃ row, placed.line.TellsMember row

/-- The result of reading lines, told without levels. -/
structure ReadsFlat (lines : List (Option Line)) (result : Checked Table) : Prop where
  /-- One pass over the lines gives the same table or the same failure. -/
  passes : result = onePass lines
  succeeds : (∃ table, result = .ok table)
    ↔ ∃ header body namespaces, lines = some header :: body.map some ∧ header.IsHeader namespaces
      ∧ WellFormed body
  /-- The table is what the lines that count say, one after the other. -/
  tells : ∀ header body namespaces table, lines = some header :: body.map some → header.IsHeader namespaces →
    result = .ok table → ∃ statements, List.Forall₂ PlacedLine.Says (countingBelow none body) statements
      ∧ table = statements.foldl Statement.apply (.empty namespaces) ∧ HoldsLatest table statements
  /-- When the level without indentation ends, no line is left. -/
  leavesNone : ∀ header body namespaces left, lines = some header :: body → header.IsHeader namespaces →
    readClasses ⟨0, body⟩ (.empty namespaces) = .ok left → left.rest = []
  /-- So there is no failure because of lines that are left. -/
  ends : ∀ next, result ≠ Checked.refuse (.expectedEnd next)
  /-- With a header, it is always a line that fails. -/
  fails : ∀ header body namespaces failure, lines = some header :: body → header.IsHeader namespaces →
    result = .error failure → failure.headline = "reading lines"

private theorem mem_of_mem_placedBelow {above : Option Line} {body : List Line} {placed : PlacedLine}
    (member : placed ∈ placedBelow above body) :
    placed.line ∈ body
      ∧ ∀ top, placed.above = some top → above = some top ∨ top ∈ body ∧ top.indent = 0 := by
  induction body generalizing above with
  | nil => cases member
  | cons line body ih =>
      rcases List.mem_cons.1 member with rfl | later
      · exact ⟨List.mem_cons_self, fun _ isAbove => .inl isAbove⟩
      · obtain ⟨inBody, around⟩ := ih later
        refine ⟨List.mem_cons_of_mem _ inBody, fun top isAbove => ?_⟩
        rcases around top isAbove with next | ⟨inside, indent⟩
        · unfold PlacedLine.aboveNext at next
          split at next
          · rename_i isTop
            cases next
            exact .inr ⟨List.mem_cons_self, isTop⟩
          · exact .inl next
        · exact .inr ⟨List.mem_cons_of_mem _ inside, indent⟩

private theorem exists_mem_placedBelow (above : Option Line) {body : List Line} {line : Line}
    (member : line ∈ body) :
    ∃ around, ⟨around, line⟩ ∈ placedBelow above body := by
  induction body generalizing above with
  | nil => cases member
  | cons first body ih =>
      rcases List.mem_cons.1 member with rfl | later
      · exact ⟨above, List.mem_cons_self⟩
      · obtain ⟨around, inside⟩ := ih _ later
        exact ⟨around, List.mem_cons_of_mem _ inside⟩

/-- All lines that count say something if the class lines and the member lines among them are well formed. -/
theorem forall_counting_iff {body : List Line} :
    (∀ placed ∈ countingBelow none body, ∃ statement, placed.Says statement)
      ↔ (∀ line ∈ body, line.indent = 0 → line.head = "c" → ∃ name mapped, line.TellsClass name mapped)
        ∧ ∀ placed ∈ placedBelow none body, placed.line.indent = 1 →
          (∃ top, placed.above = some top ∧ top.head = "c") →
          placed.line.head = "f" ∨ placed.line.head = "m" →
            ∃ row, placed.line.TellsMember row := by
  constructor
  · intro counting
    refine ⟨fun line member isTop isClass => ?_, fun placed member below owned isMember => ?_⟩
    · obtain ⟨around, inside⟩ := exists_mem_placedBelow none member
      have counted : (⟨around, line⟩ : PlacedLine).counts = true :=
        PlacedLine.counts_eq_true.2 (.inl ⟨isTop, isClass⟩)
      obtain ⟨statement, told⟩ := counting _ (List.mem_filter.2 ⟨inside, counted⟩)
      cases told with
      | named _ told => exact ⟨_, _, told⟩
      | member indent => exact absurd (indent.symm.trans isTop) (by decide)
    · have counted : placed.counts = true := PlacedLine.counts_eq_true.2 (.inr ⟨below, owned, isMember⟩)
      obtain ⟨statement, told⟩ := counting placed (List.mem_filter.2 ⟨member, counted⟩)
      cases told with
      | named indent => exact absurd (indent.symm.trans below) (by decide)
      | member _ _ _ told => exact ⟨_, told⟩
  · rintro ⟨classes, members⟩ placed counting
    obtain ⟨member, counted⟩ := List.mem_filter.1 counting
    obtain ⟨inBody, around⟩ := mem_of_mem_placedBelow member
    rcases PlacedLine.counts_eq_true.1 counted with ⟨isTop, isClass⟩
      | ⟨below, ⟨top, isAbove, isClass⟩, isMember⟩
    · obtain ⟨name, mapped, told⟩ := classes placed.line inBody isTop isClass
      exact ⟨_, .named isTop told⟩
    · obtain ⟨inside, isTop⟩ := (around top isAbove).resolve_left (by simp)
      obtain ⟨owner, mapped, owned⟩ := classes top inside isTop isClass
      obtain ⟨row, told⟩ := members placed member below ⟨top, isAbove, isClass⟩ isMember
      exact ⟨_, .member below isAbove owned told⟩

private theorem exists_statements {placed : List PlacedLine} :
    (∃ statements, List.Forall₂ PlacedLine.Says placed statements)
      ↔ ∀ line ∈ placed, ∃ statement, line.Says statement := by
  induction placed with
  | nil => simp
  | cons line lines ih =>
      rw [List.forall_mem_cons, ← ih]
      simp only [List.forall₂_cons_left_iff]
      constructor
      · rintro ⟨_, statement, statements, told, toldLater, rfl⟩
        exact ⟨⟨statement, told⟩, statements, toldLater⟩
      · rintro ⟨⟨statement, told⟩, statements, toldLater⟩
        exact ⟨_, statement, statements, told, toldLater, rfl⟩

private theorem read_eq_ok_iff {lines : List (Option Line)} {table : Table} :
    read lines = .ok table
      ↔ ∃ header body namespaces statements, lines = some header :: body.map some
        ∧ header.IsHeader namespaces
        ∧ (∀ first ∈ body.head?, first.indent = 0)
        ∧ body.IsChain (fun line next => next.indent ≤ line.indent + 1)
        ∧ List.Forall₂ PlacedLine.Says (countingBelow none body) statements
        ∧ table = statements.foldl Statement.apply (.empty namespaces) := by
  rw [read_eq_ok]
  constructor
  · rintro ⟨header, rest, namespaces, opened, rfl, isHeader, success⟩
    obtain ⟨body, statements, rfl, starts, chain, told, isTable⟩ :=
      (run_eq_ok (.empty namespaces) .nothing).1 ⟨opened, success⟩
    exact ⟨header, body, namespaces, statements, rfl, readHeader_eq_ok.1 isHeader,
      fun first isFirst => Nat.le_zero.1 (starts first isFirst), chain, told, isTable⟩
  · rintro ⟨header, body, namespaces, statements, rfl, isHeader, starts, chain, told, isTable⟩
    have succeeds : ∃ opened, Progress.run ⟨.empty namespaces, []⟩ (body.map some)
        = .ok ⟨table, opened⟩ := by
      refine (run_eq_ok (.empty namespaces) .nothing).2 ⟨body, statements, rfl, ?_, chain, told, isTable⟩
      exact fun first isFirst => Nat.le_of_eq (starts first isFirst)
    obtain ⟨opened, success⟩ := succeeds
    exact ⟨header, _, namespaces, opened, rfl, readHeader_eq_ok.2 isHeader, success⟩

/-- A header names its namespaces. -/
theorem Line.IsHeader.unique {line : Line} {namespaces other : Namespaces} (first : line.IsHeader namespaces)
    (second : line.IsHeader other) : namespaces = other :=
  Except.ok.inj ((readHeader_eq_ok.2 first).symm.trans (readHeader_eq_ok.2 second))

/-- With a header, a failure comes from the pass over the other lines. -/
theorem head?_trail_of_read {header : Line} {body : List (Option Line)} {namespaces : Namespaces}
    {failure : Failure} (isHeader : readHeader header = .ok namespaces)
    (failed : read (some header :: body) = .error failure) : failure.trail.head? = some .allLines := by
  rw [read_eq_onePass, onePass, isHeader] at failed
  cases ran : Progress.run ⟨.empty namespaces, []⟩ body with
  | ok progress => simp [Progress.outcome, ran, bind, Except.bind, pure, Except.pure] at failed
  | error runFailure =>
      have same : runFailure = failure := by simpa [Progress.outcome, ran, bind, Except.bind] using failed
      exact same ▸ Progress.head?_trail_of_run ran

private theorem headline_of_trail {failure : Failure} (around : failure.trail.head? = some .allLines) :
    failure.headline = "reading lines" := by
  obtain ⟨_ | ⟨context, trail⟩, cause⟩ := failure
  · cases around
  · cases around
    rfl

private theorem readHeader_ne_expectedEnd (line : Line) (next : Option Line) :
    readHeader line ≠ Checked.refuse (.expectedEnd next) := by
  obtain ⟨indent, number, head, rest⟩ := line
  unfold readHeader Line.next
  rcases rest with _ | ⟨major, _ | ⟨minor, names⟩⟩
  · simp only [Checked.refuse, Failure.of, bind, Except.bind]
    split_ifs <;> simp
  · simp only [Checked.refuse, Failure.of, bind, Except.bind]
    split_ifs <;> simp
  · simp only [Checked.refuse, Failure.of, bind, Except.bind]
    -- the namespaces have the line around their failure
    cases Namespaces.ofList names with
    | ok namespaces => split_ifs <;> simp [Checked.within]
    | error failure => split_ifs <;> simp [Checked.within, Failure.within]

/-- The check for lines that are left never fails. -/
theorem read_ne_expectedEnd (lines : List (Option Line)) (next : Option Line) :
    read lines ≠ Checked.refuse (.expectedEnd next) := by
  intro failed
  rcases lines with _ | ⟨_ | header, body⟩
  · cases failed
  · cases failed
  · cases isHeader : readHeader header with
    | error failure =>
        have same : failure = .of (.expectedEnd next) := by
          rw [read, isHeader] at failed
          exact Except.error.inj failed
        exact readHeader_ne_expectedEnd header next (isHeader.trans (congrArg Except.error same))
    | ok namespaces => cases head?_trail_of_read isHeader failed

/-- What reading lines comes to. -/
theorem readsFlat_read (lines : List (Option Line)) : ReadsFlat lines (read lines) where
  passes := read_eq_onePass lines
  leavesNone _ _ _ _ _ _ success := rest_of_readClasses success
  ends := read_ne_expectedEnd lines
  succeeds := by
    simp only [read_eq_ok_iff]
    constructor
    · rintro ⟨_, header, body, namespaces, statements, split, isHeader, starts, chain, told, _⟩
      obtain ⟨classes, members⟩ := forall_counting_iff.1 (exists_statements.1 ⟨statements, told⟩)
      exact ⟨header, body, namespaces, split, isHeader, starts, chain, classes, members⟩
    · rintro ⟨header, body, namespaces, split, isHeader, starts, chain, classes, members⟩
      obtain ⟨statements, told⟩ := exists_statements.2 (forall_counting_iff.2 ⟨classes, members⟩)
      exact ⟨_, header, body, namespaces, statements, split, isHeader, starts, chain, told, rfl⟩
  tells header body namespaces table split isHeader success := by
    obtain ⟨_, _, _, statements, again, isHeader', _, _, told, rfl⟩ := read_eq_ok_iff.1 success
    rw [split, List.cons.injEq, Option.some.injEq] at again
    obtain ⟨rfl, sameBody⟩ := again
    obtain rfl := List.map_injective_iff.2 (Option.some_injective Line) sameBody
    obtain rfl := isHeader.unique isHeader'
    exact ⟨statements, told, rfl, holdsLatest_foldl namespaces statements⟩
  fails header body namespaces failure split isHeader failed :=
    headline_of_trail (head?_trail_of_read (readHeader_eq_ok.2 isHeader) (split ▸ failed))

/-- Reading mapping text level by level comes to one pass over its lines, whether the text is given
by its characters or its bytes. -/
theorem reads_flat :
    (∀ text : String,
      ReadsFlat (numberLines 1 ((textLines text.toList).map fun line => some (String.ofList line)))
      (readText text))
      ∧ ∀ bytes : List UInt8, ReadsFlat (numberLines 1 (byteLines bytes)) (readBytes bytes) :=
  ⟨fun _ => readsFlat_read _, fun _ => readsFlat_read _⟩

end MixinLink.Tiny
