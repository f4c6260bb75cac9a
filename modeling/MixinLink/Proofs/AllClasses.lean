import MixinLink.Proofs.Reachable
import MixinLink.Table.Walk

/-!
# The listing of all classes

Going through a table with a stack lists its classes in preorder: the top level classes in the order of the
table, each directly followed by the listing of what is nested in it. What is still to come at any moment
stands on the stack, from its top down, each class with all that is nested in it. Taking a class takes the
first of that, so nothing gets lost, nothing comes twice, and the walk comes to an end.

In a table that can come up, the classes in the listing are those that are found by their names.

Main exports: `ClassWalk.Takes`, `ClassWalk.Lists`, `ClassWalk.lists_iff`, `Table.Sound.mem_allNodes`,
`Table.Sound.mem_allClasses`, `Table.Sound.nodup_allClasses`, `Table.lists_preorder`.
-/

namespace MixinLink

/-! ## Walks -/

namespace ClassWalk

/-- The classes can be taken from the first walk, one after the other, and what then remains is the second
walk. -/
inductive Takes : ClassWalk → List (ClassEntry × ClassForest) → ClassWalk → Prop where
  | nothing (walk : ClassWalk) : Takes walk [] walk
  | next {walk after last : ClassWalk} {node : ClassEntry × ClassForest}
      {nodes : List (ClassEntry × ClassForest)} (step : walk.next? = some (node, after))
      (others : Takes after nodes last) : Takes walk (node :: nodes) last

/-- The classes are taken from the walk and then there is none left. -/
def Lists (walk : ClassWalk) (nodes : List (ClassEntry × ClassForest)) : Prop :=
  ∃ last, Takes walk nodes last ∧ last.next? = none

variable {walk : ClassWalk}

/-- A walk ends only where nothing is still to come. -/
theorem next?_eq_none : walk.next? = none ↔ walk.outstanding = [] := by
  rw [next?, Option.map_eq_none_iff, ← Array.getLast?_toList, List.getLast?_eq_head?_reverse, outstanding]
  cases walk.stack.toList.reverse <;> simp

/-- Taking classes, however many, takes the first ones of what is still to come. -/
theorem Takes.outstanding {nodes : List (ClassEntry × ClassForest)} {last : ClassWalk}
    (takes : Takes walk nodes last) : walk.outstanding = nodes ++ last.outstanding := by
  induction takes with
  | nothing => rfl
  | next step _ ih => rw [outstanding_of_next? step, ih, List.cons_append]

private theorem lists_outstanding (walk : ClassWalk) : walk.Lists walk.outstanding := by
  -- what is still to come gets shorter with every step
  generalize toCome : walk.outstanding = nodes
  induction nodes generalizing walk with
  | nil => exact ⟨walk, .nothing walk, next?_eq_none.2 toCome⟩
  | cons node nodes ih =>
      cases step : walk.next? with
      | none =>
          rw [next?_eq_none.1 step] at toCome
          cases toCome
      | some taken =>
          obtain ⟨first, after⟩ := taken
          rw [outstanding_of_next? step, List.cons.injEq] at toCome
          obtain ⟨rfl, rest⟩ := toCome
          obtain ⟨last, takes, ended⟩ := ih after rest
          exact ⟨last, .next step takes, ended⟩

/-- A walk comes to an end, and it lists what is still to come. -/
theorem lists_iff {nodes : List (ClassEntry × ClassForest)} :
    walk.Lists nodes ↔ nodes = walk.outstanding := by
  constructor
  · rintro ⟨last, takes, ended⟩
    rw [takes.outstanding, next?_eq_none.1 ended, List.append_nil]
  · rintro rfl
    exact walk.lists_outstanding

private theorem toList_eq_outstanding (walk : ClassWalk) : walk.toList = walk.outstanding := by
  fun_induction toList walk with
  | case1 walk step => exact (next?_eq_none.1 step).symm
  | case2 walk node after step _ ih => rw [outstanding_of_next? step, ih]

end ClassWalk

/-! ## Classes in preorder -/

namespace ClassForest

private theorem mem_preorder {forest : ClassForest} {node : ClassEntry × ClassForest} :
    node ∈ forest.preorder ↔ ∃ keys, Stored forest keys node.1 node.2 := by
  constructor
  · intro member
    induction forest with
    | nil => simp [preorder] at member
    | cons key first inner rest innerIh restIh =>
        simp only [preorder, List.mem_cons, List.mem_append] at member
        rcases member with rfl | inside | later
        · exact ⟨_, .here key first inner rest⟩
        · obtain ⟨keys, isStored⟩ := innerIh inside
          exact ⟨_, .inside key first rest isStored⟩
        · obtain ⟨keys, isStored⟩ := restIh later
          exact ⟨_, .after key first inner isStored⟩
  · rintro ⟨keys, isStored⟩
    obtain ⟨entry, below⟩ := node
    dsimp only at isStored
    induction isStored with
    | here => simp [preorder]
    | inside _ _ _ _ ih => simp [preorder, ih]
    | after _ _ _ _ ih => simp [preorder, ih]

/-- Entries that are stored under their own paths, with unique keys, are all different. -/
theorem nodup_preorder {forest : ClassForest} {outer : List String} (unique : forest.UniqueKeys)
    (sound : forest.All ClassEntry.SoundAt outer) : (forest.preorder.map (·.1.name.path)).Nodup := by
  induction forest generalizing outer with
  | nil => simp [preorder]
  | cons key entry inner rest innerIh restIh =>
      obtain ⟨new, innerUnique, restUnique⟩ := unique
      obtain ⟨own, innerSound, restSound⟩ := sound
      -- below the entry the paths go on, after it they go on with another key
      have inside : ∀ found ∈ inner.preorder,
          ∃ keys, keys ≠ [] ∧ found.1.name.path = outer ++ key :: keys := by
        intro found member
        obtain ⟨keys, isStored⟩ := mem_preorder.1 member
        refine ⟨keys, isStored.keys_ne_nil, ?_⟩
        simpa using (all_iff_stored.1 innerSound _ _ _ isStored).path
      have later : ∀ found ∈ rest.preorder, ∃ other keys, other ≠ key
          ∧ found.1.name.path = outer ++ other :: keys := by
        intro found member
        obtain ⟨keys, isStored⟩ := mem_preorder.1 member
        cases keys with
        | nil => exact absurd rfl isStored.keys_ne_nil
        | cons other keys =>
            refine ⟨other, keys, ?_, (all_iff_stored.1 restSound _ _ _ isStored).path⟩
            rintro rfl
            exact new isStored.head_mem_keys
      simp only [preorder, List.map_cons, List.map_append, List.nodup_cons, List.nodup_append,
        List.mem_append, List.mem_map, own.path]
      refine ⟨?_, innerIh innerUnique innerSound, restIh restUnique restSound, ?_⟩
      · rintro (⟨found, member, same⟩ | ⟨found, member, same⟩)
        · obtain ⟨keys, more, path⟩ := inside found member
          simp [path, more] at same
        · obtain ⟨other, keys, differs, path⟩ := later found member
          simp [path, differs] at same
      · rintro _ ⟨found, member, rfl⟩ _ ⟨other, otherMember, rfl⟩ same
        obtain ⟨keys, _, path⟩ := inside found member
        obtain ⟨otherKey, otherKeys, differs, otherPath⟩ := later other otherMember
        rw [path, otherPath, List.append_cancel_left_eq, List.cons.injEq] at same
        exact differs same.1.symm

end ClassForest

/-! ## All classes of a table -/

namespace Table

private theorem allNodes_eq_preorder (table : Table) : table.allNodes = table.classes.preorder := by
  rw [allNodes, ClassWalk.toList_eq_outstanding, ClassWalk.outstanding_start]

namespace Sound

variable {table : Table}

/-- All classes are listed under their names. -/
theorem mem_allNodes (sound : table.Sound) {node : ClassEntry × ClassForest} :
    node ∈ table.allNodes ↔ table.node? node.1.name = some node := by
  rw [allNodes_eq_preorder, ClassForest.mem_preorder]
  constructor
  · rintro ⟨keys, isStored⟩
    rw [node?, (sound.stored isStored).path, ClassForest.find?_of_stored sound.keys isStored]
  · intro found
    exact ⟨_, ClassForest.stored_of_find? found⟩

/-- The classes that are listed are those that are found under their names. -/
theorem mem_allClasses (sound : table.Sound) {entry : ClassEntry} :
    entry ∈ table.allClasses ↔ table.find? entry.name = some entry := by
  rw [allClasses, List.mem_map, find?, Option.map_eq_some_iff]
  constructor
  · rintro ⟨node, member, rfl⟩
    exact ⟨node, sound.mem_allNodes.1 member, rfl⟩
  · rintro ⟨node, found, rfl⟩
    exact ⟨node, sound.mem_allNodes.2 found, rfl⟩

/-- No class is listed twice. -/
theorem nodup_allClasses (sound : table.Sound) : (table.allClasses.map ClassEntry.name).Nodup := by
  have paths := ClassForest.nodup_preorder sound.keys sound.entries
  rw [allClasses, allNodes_eq_preorder, List.map_map]
  refine List.Nodup.of_map ClassName.path ?_
  rwa [List.map_map]

/-- What is listed under a name is what is found there. -/
theorem listed_eq_found (sound : table.Sound) (name : ClassName) :
    table.allNodes.filter (·.1.name = name) = (table.node? name).toList := by
  have names := sound.nodup_allClasses
  rw [allClasses, List.map_map] at names
  have different : (table.allNodes.filter (·.1.name = name)).Nodup := (List.Nodup.of_map _ names).filter _
  have found : ∀ node, node ∈ table.allNodes.filter (·.1.name = name) ↔ table.node? name = some node := by
    intro node
    rw [List.mem_filter, decide_eq_true_eq, sound.mem_allNodes]
    constructor
    · rintro ⟨isFound, rfl⟩
      exact isFound
    · intro isFound
      have named : node.1.name = name := sound.name_of_find? (by rw [find?, isFound, Option.map_some])
      exact ⟨named ▸ isFound, named⟩
  cases isFound : table.node? name with
  | none =>
      refine List.eq_nil_iff_forall_not_mem.2 fun node member => ?_
      rw [found, isFound] at member
      cases member
  | some only =>
      have isOnly : ∀ node, node ∈ table.allNodes.filter (·.1.name = name) ↔ node ∈ [only] := by
        intro node
        rw [found, isFound, List.mem_singleton, Option.some.injEq, eq_comm]
      exact List.perm_singleton.1
        ((List.perm_ext_iff_of_nodup different (List.nodup_singleton only)).2 isOnly)

end Sound

/-- All classes of a table are listed in preorder. Taking the next class again and again comes to an
end, with the classes of the listing taken; the listing has the top level classes in the order of
the table, each directly followed by the listing of what is nested in it. In a table that can come
up, the classes that are found by their names stand in the listing, each of them once, and no others
do. -/
theorem lists_preorder (table : Table) :
    (∀ nodes, (ClassWalk.start table.classes).Lists nodes ↔ nodes = table.allNodes)
      ∧ table.allNodes = table.classes.preorder
      ∧ table.allNodes = table.classes.nodes.flatMap (fun node => node :: node.2.preorder)
      ∧ (table.Reachable → ∀ name,
        table.allNodes.filter (·.1.name = name) = (table.node? name).toList) := by
  have inPreorder := table.allNodes_eq_preorder
  refine ⟨fun nodes => ?_, inPreorder, ?_, fun reachable => reachable.sound.listed_eq_found⟩
  · rw [ClassWalk.lists_iff, ClassWalk.outstanding_start, inPreorder]
  · rw [inPreorder, ClassForest.preorder_eq_flatMap_nodes]

/-- The classes nested in the first one come before the second one, also those that were added later. -/
theorem lists_preorder_tern :
    ∃ table : Table, table.Reachable
      ∧ table.allNodes.map (·.1.name.text) = ["tern", "tern$a", "tern$a$b", "tern$c", "wren"]
      ∧ ∀ name, table.allNodes.filter (·.1.name = name) = (table.node? name).toList := by
  let operations : List Operation :=
    [.createClass ⟨"tern$a$b", by decide +kernel⟩, .createClass ⟨"wren", by decide +kernel⟩,
      .createClass ⟨"tern$c", by decide +kernel⟩]
  let table := operations.foldl Operation.apply (.empty .standard)
  have reachable : table.Reachable := (Reachable.empty .standard).run operations
  obtain ⟨_, inPreorder, _, once⟩ := lists_preorder table
  refine ⟨table, reachable, ?_, once reachable⟩
  rw [inPreorder]
  decide +kernel

end Table

end MixinLink
