import MixinLink.Table.Basic

/-!
# Walking through a table

All classes of a table are listed one after the other, each directly followed by the ones nested in it.
The walk needs no recursion into the forest: it keeps the classes that are still to be gone into on a
stack, and a class that is taken makes room for the ones nested in it.

Main exports: `ClassForest.preorder`, `ClassWalk`, `ClassWalk.next?`, `ClassWalk.toList`,
`Table.allNodes`, `Table.allClasses`.
-/

namespace MixinLink

namespace ClassForest

/-- The classes on the first level, each with what is nested in it. -/
def nodes : ClassForest → List (ClassEntry × ClassForest)
  | nil => []
  | cons _ entry inner rest => (entry, inner) :: rest.nodes

/-- All classes, each directly followed by the ones nested in it. -/
def preorder : ClassForest → List (ClassEntry × ClassForest)
  | nil => []
  | cons _ entry inner rest => (entry, inner) :: (inner.preorder ++ rest.preorder)

/-- Each node comes with what is below it. -/
theorem preorder_eq_flatMap_nodes (forest : ClassForest) :
    forest.preorder = forest.nodes.flatMap fun node => node :: node.2.preorder := by
  induction forest with
  | nil => rfl
  | cons key entry inner rest _ restIh => simp [preorder, nodes, ← restIh]

end ClassForest

/-- Where a walk through a forest is: a stack of the classes that are still to be gone into. Its top is
the end of the array. -/
structure ClassWalk where
  stack : Array (ClassEntry × ClassForest)

namespace ClassWalk

/-- A walk through all of a forest. The first class goes on the stack last. -/
def start (forest : ClassForest) : ClassWalk :=
  ⟨forest.nodes.reverse.toArray⟩

/-- Takes the class on top of the stack and puts the ones nested in it there, the first of them last. -/
def next? (walk : ClassWalk) : Option ((ClassEntry × ClassForest) × ClassWalk) :=
  walk.stack.back?.map fun node => (node, ⟨walk.stack.pop ++ node.2.nodes.reverse⟩)

/-- What is still to come: from the top of the stack down, each class and all that is nested in it. -/
def outstanding (walk : ClassWalk) : List (ClassEntry × ClassForest) :=
  walk.stack.toList.reverse.flatMap fun node => node :: node.2.preorder

/-- At the start all classes are outstanding. -/
theorem outstanding_start (forest : ClassForest) : (start forest).outstanding = forest.preorder := by
  simp [outstanding, start, forest.preorder_eq_flatMap_nodes]

variable {walk after : ClassWalk} {node : ClassEntry × ClassForest}

/-- A step changes the top of the stack only. -/
theorem stack_of_next? (step : walk.next? = some (node, after)) :
    ∃ below, walk.stack.toList = below ++ [node] ∧ after.stack.toList = below ++ node.2.nodes.reverse := by
  obtain ⟨top, isTop, taken⟩ := Option.map_eq_some_iff.1 step
  cases taken
  rw [← Array.getLast?_toList, List.getLast?_eq_some_iff] at isTop
  obtain ⟨below, whole⟩ := isTop
  exact ⟨below, whole, by simp [whole]⟩

/-- A step takes the first of what is still to come. -/
theorem outstanding_of_next? (step : walk.next? = some (node, after)) :
    walk.outstanding = node :: after.outstanding := by
  obtain ⟨below, whole, stack⟩ := stack_of_next? step
  simp [outstanding, whole, stack, node.2.preorder_eq_flatMap_nodes]

/-- All classes that are still to come, taken one after the other. -/
def toList (walk : ClassWalk) : List (ClassEntry × ClassForest) :=
  match step : walk.next? with
  | none => []
  | some (node, after) =>
    have fewer : after.outstanding.length < walk.outstanding.length := by
      rw [outstanding_of_next? step]
      exact Nat.lt_succ_self _
    node :: after.toList
termination_by walk.outstanding.length

end ClassWalk

namespace Table

/-- All classes of a table, each with what is nested in it. -/
def allNodes (table : Table) : List (ClassEntry × ClassForest) :=
  (ClassWalk.start table.classes).toList

/-- The entries of all classes, each directly followed by the ones nested in it. -/
def allClasses (table : Table) : List ClassEntry :=
  table.allNodes.map (·.1)

end Table

end MixinLink
