import MixinLink.Signature

/-!
# The class hierarchy

What is known about classes from elsewhere: their super classes, interfaces and declared members. The
ancestors of a class are found breadth first along super classes and interfaces, so the nearest come
first; the class of all objects is left out, and a class nothing is known about has no ancestors.

Main exports: `ClassInfo`, `Hierarchy`, `Hierarchy.find?`, `Hierarchy.add`, `Hierarchy.ancestors`.
-/

namespace MixinLink

/-- A declared field. -/
structure FieldInfo where
  name : FieldName
  type : FieldType
  isPrivate : Bool
  isFinal : Bool
deriving DecidableEq

/-- A declared method. -/
structure MethodInfo where
  name : MethodName
  type : MethodType
  isPrivate : Bool
  isStatic : Bool
deriving DecidableEq

/-- A class with what it extends and declares. -/
structure ClassInfo where
  name : ClassName
  superClass : Option ClassName
  interfaces : List ClassName
  fields : List FieldInfo
  methods : List MethodInfo
deriving DecidableEq

/-- The signature of a declared field. -/
def FieldInfo.signature (field : FieldInfo) : FieldSignature :=
  ⟨field.name, some field.type⟩

/-- The signature of a declared method. -/
def MethodInfo.signature (method : MethodInfo) : MethodSignature :=
  ⟨method.name, method.type⟩

/-- Classes below see the method: it is neither private nor about creating instances or setting up
the class. -/
def MethodInfo.isInheritable (method : MethodInfo) : Bool :=
  !method.isPrivate && !method.name.isSpecial

/-- The super class, if there is one, and then the interfaces. -/
def ClassInfo.parents (info : ClassInfo) : List ClassName :=
  info.superClass.toList ++ info.interfaces

/-- The known classes, no two of the same name. -/
structure Hierarchy where
  classes : List ClassInfo
deriving DecidableEq

namespace Hierarchy

/-- Nothing is known about any class. -/
def empty : Hierarchy :=
  ⟨[]⟩

/-- Puts a class in the place of the one with the same name, or at the end if there is none. -/
def insert (info : ClassInfo) : List ClassInfo → List ClassInfo
  | [] => [info]
  | known :: rest => if known.name = info.name then info :: rest else known :: insert info rest

/-- Adds a class, in place of what was known about the class of that name. -/
def add (hierarchy : Hierarchy) (info : ClassInfo) : Hierarchy :=
  ⟨insert info hierarchy.classes⟩

/-- The hierarchy of some classes; later ones replace earlier ones of the same name. -/
def ofList (infos : List ClassInfo) : Hierarchy :=
  infos.foldl add empty

/-- What is known about a class. -/
def find? (hierarchy : Hierarchy) (name : ClassName) : Option ClassInfo :=
  hierarchy.classes.find? (·.name = name)

/-- The parents of a class, none if nothing is known about it. -/
def parents (hierarchy : Hierarchy) (name : ClassName) : List ClassName :=
  match hierarchy.find? name with
  | some info => info.parents
  | none => []

/-- All classes that are a parent of some class. -/
def allParents (hierarchy : Hierarchy) : List ClassName :=
  hierarchy.classes.flatMap ClassInfo.parents

/-- The classes of a list that are new: not the class of all objects, not seen before, and not earlier
in the list. -/
def unseen (seen : List ClassName) : List ClassName → List ClassName
  | [] => []
  | name :: rest =>
    if name = ClassName.object ∨ name ∈ seen then unseen seen rest
    else name :: unseen (name :: seen) rest

/-- Names that are left are among the given ones, and not seen before. -/
theorem mem_of_mem_unseen {seen names : List ClassName} {name : ClassName}
    (member : name ∈ unseen seen names) : name ∈ names ∧ name ∉ seen := by
  induction names generalizing seen with
  | nil => simp [unseen] at member
  | cons first rest ih =>
    simp only [unseen] at member
    split at member
    · exact ⟨List.mem_cons_of_mem _ (ih member).1, (ih member).2⟩
    · rename_i new
      rcases List.mem_cons.1 member with rfl | later
      · exact ⟨List.mem_cons_self, fun old => new (.inr old)⟩
      · have found := ih later
        exact ⟨List.mem_cons_of_mem _ found.1, fun old => found.2 (List.mem_cons_of_mem _ old)⟩

/-- The parents of a class are among all parents. -/
theorem parents_subset_allParents {hierarchy : Hierarchy} {name parent : ClassName}
    (member : parent ∈ hierarchy.parents name) : parent ∈ hierarchy.allParents := by
  unfold parents at member
  split at member
  · rename_i info found
    exact List.mem_flatMap.2 ⟨info, List.mem_of_find?_eq_some found, member⟩
  · simp at member

/-- The number of elements of a list that were not seen yet. -/
def countUnseen (names seen : List ClassName) : Nat :=
  (names.filter (· ∉ seen)).length

private theorem filter_unseen_sublist (names seen more : List ClassName) :
    (names.filter (· ∉ more ++ seen)).Sublist (names.filter (· ∉ seen)) := by
  have nested : names.filter (· ∉ more ++ seen) = (names.filter (· ∉ seen)).filter (· ∉ more) := by
    simp [List.filter_filter]
  rw [nested]
  exact List.filter_sublist

private theorem countUnseen_append_lt {names seen more : List ClassName} {name : ClassName}
    (listed : name ∈ names) (new : name ∉ seen) (added : name ∈ more) :
    countUnseen names (more ++ seen) < countUnseen names seen := by
  have sub := filter_unseen_sublist names seen more
  refine Nat.lt_of_le_of_ne sub.length_le fun same => ?_
  have equal := sub.eq_of_length same
  have inside : name ∈ names.filter (· ∉ seen) := by simp [listed, new]
  rw [← equal] at inside
  simp [added] at inside

/-- The classes found from a queue of classes to look at, apart from those seen before. -/
def search (hierarchy : Hierarchy) (queue seen : List ClassName) : List ClassName :=
  match queue with
  | [] => []
  | current :: queue =>
    let found := unseen seen (hierarchy.parents current)
    found ++ search hierarchy (queue ++ found) (found ++ seen)
termination_by (countUnseen hierarchy.allParents seen, queue.length)
decreasing_by
  cases case : unseen seen (hierarchy.parents current) with
  | nil =>
    simp only [List.nil_append, List.append_nil, List.length_cons]
    exact Prod.Lex.right _ (Nat.lt_succ_self _)
  | cons first others =>
    have member : first ∈ unseen seen (hierarchy.parents current) := by simp [case]
    have found := mem_of_mem_unseen member
    rw [← case]
    exact Prod.Lex.left _ _
      (countUnseen_append_lt (parents_subset_allParents found.1) found.2 member)

/-- The ancestors of a class, nearest first, the super class before the interfaces. -/
def ancestors (hierarchy : Hierarchy) (name : ClassName) : List ClassName :=
  hierarchy.search [name] [name]

/-- The class itself and then its ancestors. -/
def lineage (hierarchy : Hierarchy) (name : ClassName) : List ClassName :=
  name :: hierarchy.ancestors name

end Hierarchy

end MixinLink
