import Mathlib.Data.List.Nodup
import Mathlib.Logic.Function.Iterate
import Mathlib.Order.Lattice.Nat
import MixinLink.Hierarchy

/-!
# The ancestors of a class

The search for the ancestors of a class keeps a queue of classes to look at. Each round takes the first one
off and puts its parents at the end, those that were not seen before. A class gets into the queue once, so
the search ends, whatever circles there are, after one round for the class and one for each ancestor.

The ancestors are the classes that can be reached upwards. They come in the order of their distance, and
those that are found at the same class in the order in which that class names its parents.

Main exports: `Hierarchy.Climbs`, `Hierarchy.distance`, `Hierarchy.discoveries`, `Walk`, `Walk.round`,
`Walk.Explored`, `Walk.Explored.round`, `Hierarchy.BreadthFirst`, `Hierarchy.breadthFirst_ancestors`,
`Hierarchy.search_ends_breadthFirst`.
-/

namespace MixinLink

namespace Hierarchy

/-! ## Ways up -/

/-- A way of so many steps from a class up to another one, each to a parent other than the class of all
objects. -/
inductive Climbs (hierarchy : Hierarchy) (start : ClassName) : Nat → ClassName → Prop where
  | here : Climbs hierarchy start 0 start
  | up {steps : Nat} {lower upper : ClassName} (way : Climbs hierarchy start steps lower)
      (isParent : upper ∈ hierarchy.parents lower) (notObject : upper ≠ ClassName.object) :
      Climbs hierarchy start (steps + 1) upper

/-- The length of a shortest way from a class up to another one. -/
noncomputable def distance (hierarchy : Hierarchy) (start name : ClassName) : Nat :=
  sInf {steps | hierarchy.Climbs start steps name}

variable {hierarchy : Hierarchy} {start name : ClassName}

private theorem Climbs.distance_le {steps : Nat} (way : hierarchy.Climbs start steps name) :
    hierarchy.distance start name ≤ steps :=
  Nat.sInf_le way

private theorem Climbs.shortest {steps : Nat} (way : hierarchy.Climbs start steps name) :
    hierarchy.Climbs start (hierarchy.distance start name) name := by
  have reached : {steps | hierarchy.Climbs start steps name}.Nonempty := ⟨steps, way⟩
  exact Nat.sInf_mem reached

private theorem distance_self : hierarchy.distance start start = 0 :=
  Nat.le_zero.1 Climbs.here.distance_le

/-! ## What a class adds -/

/-- The parents of a class that are new after some other classes: not the class of all objects, not the
class where the search starts, and no parent of the classes before. Each stands once, in the order super
class, interfaces. -/
def newParents (hierarchy : Hierarchy) (start : ClassName) (before : List ClassName) (name : ClassName) :
    List ClassName :=
  ((hierarchy.parents name).filter fun parent =>
    parent ≠ ClassName.object ∧ parent ≠ start
      ∧ ∀ other ∈ before, parent ∉ hierarchy.parents other).eraseDups

/-- The new parents of classes that are looked at one after the other. -/
def discoveries (hierarchy : Hierarchy) (start : ClassName) (before : List ClassName) :
    List ClassName → List ClassName
  | [] => []
  | name :: rest =>
    hierarchy.newParents start before name ++ hierarchy.discoveries start (before ++ [name]) rest

private theorem discoveries_concat (before names : List ClassName) (last : ClassName) :
    hierarchy.discoveries start before (names ++ [last])
      = hierarchy.discoveries start before names ++ hierarchy.newParents start (before ++ names) last := by
  induction names generalizing before with
  | nil => simp [discoveries]
  | cons first rest ih => simp [discoveries, ih]

private theorem mem_newParents {before : List ClassName} {parent : ClassName} :
    parent ∈ hierarchy.newParents start before name
      ↔ parent ∈ hierarchy.parents name ∧ parent ≠ ClassName.object ∧ parent ≠ start
        ∧ ∀ other ∈ before, parent ∉ hierarchy.parents other := by
  rw [newParents, List.mem_eraseDups, List.mem_filter, decide_eq_true_eq]

private theorem mem_discoveries {before names : List ClassName} {parent : ClassName} :
    parent ∈ hierarchy.discoveries start before names
      ↔ parent ≠ ClassName.object ∧ parent ≠ start ∧ (∀ other ∈ before, parent ∉ hierarchy.parents other)
        ∧ ∃ name ∈ names, parent ∈ hierarchy.parents name := by
  induction names generalizing before with
  | nil => simp [discoveries]
  | cons first rest ih =>
      rw [discoveries, List.mem_append, ih, mem_newParents]
      by_cases ofFirst : parent ∈ hierarchy.parents first
      · simp [ofFirst]
      · have onlyBefore : (∀ other ∈ before ++ [first], parent ∉ hierarchy.parents other)
            ↔ ∀ other ∈ before, parent ∉ hierarchy.parents other := by
          simp [or_imp, forall_and, ofFirst]
        rw [onlyBefore]
        simp [ofFirst]

/-- Unseen classes are picked in their order, each the first time that it comes up. -/
theorem unseen_eq (seen names : List ClassName) :
    unseen seen names
      = (names.filter fun name => name ≠ ClassName.object ∧ name ∉ seen).eraseDups := by
  induction names generalizing seen with
  | nil => rfl
  | cons first rest ih =>
      rw [unseen, List.filter_cons]
      by_cases old : first = ClassName.object ∨ first ∈ seen
      · have dropped : ¬(first ≠ ClassName.object ∧ first ∉ seen) := by tauto
        rw [if_pos old, if_neg (by simpa using dropped), ih]
      · have kept : first ≠ ClassName.object ∧ first ∉ seen := by tauto
        rw [if_neg old, if_pos (by simpa using kept), ih, List.eraseDups_cons, List.filter_filter]
        congr 3
        funext name
        by_cases same : name = first
        · simp [same]
        · simp [same]

private theorem nodup_unseen (seen names : List ClassName) : (unseen seen names).Nodup := by
  induction names generalizing seen with
  | nil => exact List.nodup_nil
  | cons first rest ih =>
      rw [unseen]
      split
      · exact ih seen
      · exact List.nodup_cons.2 ⟨fun again => (mem_of_mem_unseen again).2 List.mem_cons_self, ih _⟩

end Hierarchy

/-! ## Round by round -/

/-- Where the search for ancestors is: the classes to look at, the ones that were seen, and the ancestors
found so far. -/
structure Walk where
  queue : List ClassName
  seen : List ClassName
  found : List ClassName

namespace Walk

/-- The search starts with the class itself. -/
def start (name : ClassName) : Walk :=
  ⟨[name], [name], []⟩

/-- One round of the search looks at the first class of the queue. -/
def round (hierarchy : Hierarchy) (walk : Walk) : Walk :=
  match walk.queue with
  | [] => walk
  | current :: queue =>
    let found := Hierarchy.unseen walk.seen (hierarchy.parents current)
    ⟨queue ++ found, found ++ walk.seen, walk.found ++ found⟩

/-- The number of classes that are still to be looked at: in the queue, or to be found. -/
def roundsLeft (hierarchy : Hierarchy) (walk : Walk) : Nat :=
  walk.queue.length + (hierarchy.search walk.queue walk.seen).length

variable {hierarchy : Hierarchy} {walk : Walk}

private theorem queue_eq_nil_iff (hierarchy : Hierarchy) :
    walk.queue = [] ↔ walk.roundsLeft hierarchy = 0 := by
  constructor
  · intro empty
    rw [roundsLeft, empty, Hierarchy.search]
    rfl
  · intro ended
    exact List.length_eq_zero_iff.1 (Nat.add_eq_zero_iff.1 ended).1

private theorem roundsLeft_round (hierarchy : Hierarchy) (walk : Walk) :
    (walk.round hierarchy).roundsLeft hierarchy = walk.roundsLeft hierarchy - 1 := by
  obtain ⟨queue, seen, found⟩ := walk
  cases queue with
  | nil =>
      have ended : (Walk.mk [] seen found).roundsLeft hierarchy = 0 := (queue_eq_nil_iff hierarchy).1 rfl
      rw [round, ended]
  | cons current queue =>
      rw [roundsLeft, roundsLeft, Hierarchy.search]
      simp only [round, List.length_append, List.length_cons]
      omega

private theorem found_round (hierarchy : Hierarchy) (walk : Walk) :
    (walk.round hierarchy).found
        ++ hierarchy.search (walk.round hierarchy).queue (walk.round hierarchy).seen
      = walk.found ++ hierarchy.search walk.queue walk.seen := by
  obtain ⟨queue, seen, found⟩ := walk
  cases queue with
  | nil => rfl
  | cons current queue =>
      rw [Hierarchy.search.eq_2]
      simp only [round, List.append_assoc]

private theorem roundsLeft_rounds (hierarchy : Hierarchy) (walk : Walk) (rounds : Nat) :
    ((round hierarchy)^[rounds] walk).roundsLeft hierarchy = walk.roundsLeft hierarchy - rounds := by
  induction rounds with
  | zero => rfl
  | succ rounds ih => rw [Function.iterate_succ_apply', roundsLeft_round, ih, Nat.sub_sub]

private theorem found_rounds (hierarchy : Hierarchy) (walk : Walk) (rounds : Nat) :
    ((round hierarchy)^[rounds] walk).found
        ++ hierarchy.search ((round hierarchy)^[rounds] walk).queue ((round hierarchy)^[rounds] walk).seen
      = walk.found ++ hierarchy.search walk.queue walk.seen := by
  induction rounds with
  | zero => rfl
  | succ rounds ih => rw [Function.iterate_succ_apply', found_round, ih]

/-- The search is at its end after a round for the class and one for each ancestor, and not before. -/
theorem queue_rounds_eq_nil_iff {name : ClassName} {rounds : Nat} :
    ((round hierarchy)^[rounds] (start name)).queue = [] ↔ (hierarchy.ancestors name).length < rounds := by
  have atStart : (start name).roundsLeft hierarchy = 1 + (hierarchy.ancestors name).length := rfl
  rw [queue_eq_nil_iff hierarchy, roundsLeft_rounds, atStart]
  omega

/-- At its end the search has found the ancestors. -/
theorem found_rounds_eq_ancestors {name : ClassName} {rounds : Nat}
    (ended : ((round hierarchy)^[rounds] (start name)).queue = []) :
    ((round hierarchy)^[rounds] (start name)).found = hierarchy.ancestors name := by
  have whole := found_rounds hierarchy (start name) rounds
  rw [ended, Hierarchy.search, List.append_nil] at whole
  exact whole

/-! ## What every round keeps -/

/-- What the search knows after it looked at some classes. -/
structure Explored (hierarchy : Hierarchy) (start : ClassName) (walk : Walk) (visited : List ClassName) :
    Prop where
  /-- The classes in the queue are those that were found and not looked at. -/
  lineage : start :: walk.found = visited ++ walk.queue
  seen : ∀ name, name ∈ walk.seen ↔ name ∈ start :: walk.found
  nodup : (start :: walk.found).Nodup
  discovered : walk.found = hierarchy.discoveries start [] visited
  climbs : ∀ name ∈ start :: walk.found, ∃ steps, hierarchy.Climbs start steps name
  sorted : (start :: walk.found).Pairwise fun near far =>
    hierarchy.distance start near ≤ hierarchy.distance start far
  /-- Nothing found is more than one step farther than the class that is next. -/
  close : ∀ next ∈ walk.queue.head?, ∀ name ∈ start :: walk.found,
    hierarchy.distance start name ≤ hierarchy.distance start next + 1
  /-- Everything as near as the class that is next was found. -/
  covers : ∀ next ∈ walk.queue.head?, ∀ name steps, hierarchy.Climbs start steps name →
    steps ≤ hierarchy.distance start next → name ∈ start :: walk.found

namespace Explored

variable {start current : ClassName} {queue visited : List ClassName}

private theorem initial (hierarchy : Hierarchy) (name : ClassName) :
    Explored hierarchy name (Walk.start name) [] where
  lineage := rfl
  seen _ := Iff.rfl
  nodup := List.nodup_singleton name
  discovered := rfl
  climbs := by
    intro other member
    cases List.mem_singleton.1 member
    exact ⟨0, .here⟩
  sorted := List.pairwise_singleton _ _
  close := by
    intro next isNext other member
    cases List.mem_singleton.1 member
    rw [Hierarchy.distance_self]
    exact Nat.zero_le _
  covers := by
    intro next isNext other steps way near
    cases isNext
    rw [Hierarchy.distance_self] at near
    cases way with
    | here => exact List.mem_singleton_self _
    | up => cases near

/-- A round adds the new parents of the class that it looks at. -/
theorem unseen_eq_newParents (explored : Explored hierarchy start walk visited) (name : ClassName) :
    Hierarchy.unseen walk.seen (hierarchy.parents name) = hierarchy.newParents start visited name := by
  rw [Hierarchy.unseen_eq, Hierarchy.newParents]
  congr 2
  funext parent
  by_cases isObject : parent = ClassName.object
  · simp [isObject]
  · have seen : parent ∈ walk.seen
        ↔ parent = start ∨ ∃ other ∈ visited, parent ∈ hierarchy.parents other := by
      rw [explored.seen, List.mem_cons, explored.discovered, Hierarchy.mem_discoveries]
      by_cases isStart : parent = start
      · simp [isStart]
      · simp [isObject, isStart]
    simp [isObject, seen, not_or]

section Round

variable (explored : Explored hierarchy start walk visited) (atCurrent : walk.queue = current :: queue)

include explored atCurrent

private theorem lineage_cons : start :: walk.found = visited ++ current :: queue := by
  rw [explored.lineage, atCurrent]

private theorem current_mem : current ∈ start :: walk.found := by
  rw [explored.lineage_cons atCurrent]
  exact List.mem_append_right _ List.mem_cons_self

/-- New parents are one step farther than the class that they are found at. -/
theorem distance_new {parent : ClassName}
    (isNew : parent ∈ Hierarchy.unseen walk.seen (hierarchy.parents current)) :
    hierarchy.distance start parent = hierarchy.distance start current + 1
      ∧ hierarchy.Climbs start (hierarchy.distance start current + 1) parent := by
  obtain ⟨steps, toCurrent⟩ := explored.climbs current (explored.current_mem atCurrent)
  have unknown : parent ∉ start :: walk.found := by
    rw [← explored.seen]
    exact (Hierarchy.mem_of_mem_unseen isNew).2
  rw [explored.unseen_eq_newParents, Hierarchy.mem_newParents] at isNew
  have way := toCurrent.shortest.up isNew.1 isNew.2.1
  refine ⟨Nat.le_antisymm way.distance_le (Nat.succ_le_of_lt (Nat.lt_of_not_le fun near => ?_)), way⟩
  exact unknown (explored.covers current (by rw [atCurrent]; rfl) parent _ way.shortest near)

private theorem sorted_queue :
    ∀ later ∈ queue, hierarchy.distance start current ≤ hierarchy.distance start later := by
  have sorted := explored.sorted
  rw [explored.lineage_cons atCurrent] at sorted
  exact (List.pairwise_cons.1 (List.pairwise_append.1 sorted).2.1).1

/-- The class that is next after a round is as far as the one before it, or one step farther. -/
theorem distance_next {next : ClassName}
    (isNext : next ∈ (queue ++ Hierarchy.unseen walk.seen (hierarchy.parents current)).head?) :
    hierarchy.distance start current ≤ hierarchy.distance start next
      ∧ hierarchy.distance start next ≤ hierarchy.distance start current + 1 := by
  rcases List.mem_append.1 (List.mem_of_mem_head? isNext) with inQueue | isNew
  · have found : next ∈ start :: walk.found := by
      rw [explored.lineage_cons atCurrent]
      exact List.mem_append_right _ (List.mem_cons_of_mem _ inQueue)
    exact ⟨explored.sorted_queue atCurrent next inQueue,
      explored.close current (by rw [atCurrent]; rfl) next found⟩
  · rw [(explored.distance_new atCurrent isNew).1]
    exact ⟨Nat.le_succ _, Nat.le_refl _⟩

/-- What is one step farther than the class looked at is found, as soon as the next class is farther. -/
theorem covers_next {next name : ClassName}
    (isNext : next ∈ (queue ++ Hierarchy.unseen walk.seen (hierarchy.parents current)).head?)
    (farther : hierarchy.distance start current < hierarchy.distance start next)
    (way : hierarchy.Climbs start (hierarchy.distance start current + 1) name) :
    name ∈ start :: hierarchy.discoveries start [] (visited ++ [current]) := by
  cases way with
  | @up _ lower _ way isParent notObject =>
      have found := explored.covers current (by rw [atCurrent]; rfl) lower _ way (Nat.le_refl _)
      rw [explored.lineage_cons atCurrent, ← List.singleton_append, ← List.append_assoc,
        List.mem_append] at found
      rcases found with looked | waits
      · by_cases isStart : name = start
        · exact isStart ▸ List.mem_cons_self
        · apply List.mem_cons_of_mem
          exact Hierarchy.mem_discoveries.2 ⟨notObject, isStart, by simp, lower, looked, isParent⟩
      · -- the queue is sorted, so a class that waits is not nearer than the next one
        exfalso
        obtain ⟨first, rest, rfl⟩ := List.exists_cons_of_ne_nil (List.ne_nil_of_mem waits)
        cases isNext
        have sorted := explored.sorted
        rw [explored.lineage_cons atCurrent] at sorted
        have later := (List.pairwise_cons.1 (List.pairwise_append.1 sorted).2.1).2
        have order : hierarchy.distance start next ≤ hierarchy.distance start lower := by
          rcases List.mem_cons.1 waits with rfl | after
          · exact Nat.le_refl _
          · exact (List.pairwise_cons.1 later).1 lower after
        exact absurd (Nat.lt_of_lt_of_le farther (Nat.le_trans order way.distance_le)) (Nat.lt_irrefl _)

end Round

/-- One round keeps what the search knows. -/
theorem round (explored : Explored hierarchy start walk visited)
    (atCurrent : walk.queue = current :: queue) :
    Explored hierarchy start (walk.round hierarchy) (visited ++ [current]) := by
  let new := Hierarchy.unseen walk.seen (hierarchy.parents current)
  have after : walk.round hierarchy = ⟨queue ++ new, new ++ walk.seen, walk.found ++ new⟩ := by
    simp only [Walk.round, atCurrent, new]
  have lineage := explored.lineage_cons atCurrent
  have discovered : walk.found ++ new = hierarchy.discoveries start [] (visited ++ [current]) := by
    rw [Hierarchy.discoveries_concat, List.nil_append, ← explored.discovered,
      ← explored.unseen_eq_newParents]
  have isDistance {parent : ClassName} (isNew : parent ∈ new) := explored.distance_new atCurrent isNew
  have near : ∀ name ∈ start :: walk.found,
      hierarchy.distance start name ≤ hierarchy.distance start current + 1 :=
    explored.close current (by rw [atCurrent]; rfl)
  rw [after]
  constructor
  case lineage => rw [← List.cons_append, lineage]; simp
  case seen =>
    intro name
    rw [← List.cons_append, List.mem_append, List.mem_append, explored.seen, or_comm]
  case nodup =>
    rw [← List.cons_append]
    refine List.nodup_append.2 ⟨explored.nodup, Hierarchy.nodup_unseen _ _, ?_⟩
    rintro old isOld _ isNew rfl
    exact (Hierarchy.mem_of_mem_unseen isNew).2 ((explored.seen old).2 isOld)
  case discovered => exact discovered
  case climbs =>
    intro name member
    rw [← List.cons_append, List.mem_append] at member
    rcases member with old | isNew
    · exact explored.climbs name old
    · exact ⟨_, (isDistance isNew).2⟩
  case sorted =>
    rw [← List.cons_append]
    refine List.pairwise_append.2 ⟨explored.sorted, ?_, ?_⟩
    · refine List.pairwise_of_forall_mem_list fun first isFirst second isSecond => ?_
      rw [(isDistance isFirst).1, (isDistance isSecond).1]
    · intro old isOld parent isNew
      rw [(isDistance isNew).1]
      exact near old isOld
  case close =>
    intro next isNext name member
    have atLeast := (explored.distance_next atCurrent isNext).1
    rw [← List.cons_append, List.mem_append] at member
    rcases member with old | isNew
    · exact Nat.le_trans (near name old) (Nat.succ_le_succ atLeast)
    · rw [(isDistance isNew).1]
      exact Nat.succ_le_succ atLeast
  case covers =>
    intro next isNext name steps way within
    obtain ⟨_, atMost⟩ := explored.distance_next atCurrent isNext
    by_cases early : steps ≤ hierarchy.distance start current
    · rw [← List.cons_append]
      exact List.mem_append_left _ (explored.covers current (by rw [atCurrent]; rfl) name steps way early)
    · have exactly : steps = hierarchy.distance start current + 1 := by omega
      subst exactly
      rw [discovered]
      exact explored.covers_next atCurrent isNext (Nat.lt_of_succ_le within) way

/-- The search knows this after any number of rounds. -/
theorem rounds (hierarchy : Hierarchy) (name : ClassName) (rounds : Nat) :
    ∃ visited, Explored hierarchy name ((Walk.round hierarchy)^[rounds] (Walk.start name)) visited := by
  induction rounds with
  | zero => exact ⟨[], .initial hierarchy name⟩
  | succ rounds ih =>
      obtain ⟨visited, explored⟩ := ih
      rw [Function.iterate_succ_apply']
      cases atCurrent : ((Walk.round hierarchy)^[rounds] (Walk.start name)).queue with
      | nil =>
          have ended : Walk.round hierarchy ((Walk.round hierarchy)^[rounds] (Walk.start name))
              = (Walk.round hierarchy)^[rounds] (Walk.start name) := by
            simp only [Walk.round, atCurrent]
          rw [ended]
          exact ⟨visited, explored⟩
      | cons current queue => exact ⟨visited ++ [current], explored.round atCurrent⟩

end Explored

end Walk

/-! ## The ancestors -/

namespace Hierarchy

/-- The list has the classes that can be reached upwards from a class, breadth first. -/
structure BreadthFirst (hierarchy : Hierarchy) (start : ClassName) (found : List ClassName) : Prop where
  nodup : found.Nodup
  reachable : ∀ name, name ∈ found
    ↔ name ≠ start ∧ name ≠ ClassName.object ∧ ∃ steps, hierarchy.Climbs start steps name
  sorted : found.Pairwise fun near far => hierarchy.distance start near ≤ hierarchy.distance start far
  /-- The class and those found add their new parents, one class after the other. -/
  inOrder : found = hierarchy.discoveries start [] (start :: found)

/-- A search that looked at all classes that it found has found all classes there are. -/
theorem breadthFirst_of_explored {hierarchy : Hierarchy} {start : ClassName} {walk : Walk}
    {visited : List ClassName} (explored : walk.Explored hierarchy start visited) (ended : walk.queue = []) :
    hierarchy.BreadthFirst start walk.found := by
  have all : start :: walk.found = visited := by rw [explored.lineage, ended, List.append_nil]
  have inOrder : walk.found = hierarchy.discoveries start [] (start :: walk.found) := by
    rw [all]
    exact explored.discovered
  have closed : ∀ {name : ClassName} {steps : Nat}, hierarchy.Climbs start steps name →
      name ∈ start :: walk.found := by
    intro name steps way
    induction way with
    | here => exact List.mem_cons_self
    | @up _ lower upper _ isParent notObject found =>
        by_cases isStart : upper = start
        · exact isStart ▸ List.mem_cons_self
        · rw [inOrder]
          apply List.mem_cons_of_mem
          exact mem_discoveries.2 ⟨notObject, isStart, by simp, lower, found, isParent⟩
  refine ⟨(List.nodup_cons.1 explored.nodup).2, fun name => ⟨fun member => ?_, fun reached => ?_⟩,
    (List.pairwise_cons.1 explored.sorted).2, inOrder⟩
  · have isNew := member
    rw [inOrder, mem_discoveries] at isNew
    exact ⟨isNew.2.1, isNew.1, explored.climbs name (List.mem_cons_of_mem _ member)⟩
  · obtain ⟨other, _, steps, way⟩ := reached
    exact (List.mem_cons.1 (closed way)).resolve_left other

/-- The ancestors of a class are the classes above it, breadth first. -/
theorem breadthFirst_ancestors (hierarchy : Hierarchy) (name : ClassName) :
    hierarchy.BreadthFirst name (hierarchy.ancestors name) := by
  have ended :
      ((Walk.round hierarchy)^[(hierarchy.ancestors name).length + 1] (Walk.start name)).queue = [] :=
    Walk.queue_rounds_eq_nil_iff.2 (Nat.lt_succ_self _)
  obtain ⟨visited, explored⟩ := Walk.Explored.rounds hierarchy name ((hierarchy.ancestors name).length + 1)
  rw [← Walk.found_rounds_eq_ancestors ended]
  exact breadthFirst_of_explored explored ended

private theorem length_ancestors_le (hierarchy : Hierarchy) (name : ClassName) :
    (hierarchy.ancestors name).length ≤ hierarchy.allParents.length := by
  have ancestors := hierarchy.breadthFirst_ancestors name
  have bounded : hierarchy.ancestors name ⊆ hierarchy.allParents := by
    intro ancestor member
    rw [ancestors.inOrder, mem_discoveries] at member
    obtain ⟨_, _, _, _, _, isParent⟩ := member
    exact parents_subset_allParents isParent
  exact (ancestors.nodup.subperm bounded).length_le

/-- The search for ancestors ends after a round for the class and one for each ancestor, no matter how the
classes inherit from each other. There are no more ancestors than parents, and they are all classes above,
each once, breadth first. -/
theorem search_ends_breadthFirst (hierarchy : Hierarchy) (name : ClassName) :
    (∀ rounds, ((Walk.round hierarchy)^[rounds] (Walk.start name)).queue = []
        ↔ (hierarchy.ancestors name).length < rounds)
      ∧ (∀ rounds, ((Walk.round hierarchy)^[rounds] (Walk.start name)).queue = [] →
        ((Walk.round hierarchy)^[rounds] (Walk.start name)).found = hierarchy.ancestors name)
      ∧ (hierarchy.ancestors name).length ≤ hierarchy.allParents.length
      ∧ hierarchy.BreadthFirst name (hierarchy.ancestors name) :=
  ⟨fun _ => Walk.queue_rounds_eq_nil_iff, fun _ => Walk.found_rounds_eq_ancestors,
    hierarchy.length_ancestors_le name, hierarchy.breadthFirst_ancestors name⟩

end Hierarchy

end MixinLink
