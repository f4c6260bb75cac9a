import MixinLink.Completion
import MixinLink.Proofs.Assoc
import MixinLink.Proofs.Forest

/-!
# What completing a class changes

Completing a class changes one entry, by adding the members that it lacks. Seen this way the change can
be made to any entry, which is what properties of all entries are proved with.

Fields and methods are collected in the same way (`Table.collect`): the first class of the lineage that
declares a member decides where the search for its name starts.

Main exports: `ClassEntry.completeWith`, `Table.complete_value`, `Table.complete_of_unknown`,
`Table.find?_collect_of_first`, `Table.find?_collect_of_undeclared`, `Table.unique_inheritedFields`,
`Table.unique_inheritedMethods`, `Table.find?_append_missing`.
-/

namespace MixinLink

/-- Adds the members of two lists that the entry lacks. -/
def ClassEntry.completeWith (fields : List (FieldSignature × FieldName))
    (methods : List (MethodSignature × MethodName)) (entry : ClassEntry) : ClassEntry :=
  { entry with
    fields := entry.fields ++ (Table.missing entry.fields fields).map (Table.storedAs FieldMapping.mk)
    methods := entry.methods ++ (Table.missing entry.methods methods).map (Table.storedAs MethodMapping.mk)
    completed := true }

namespace Table

/-- Completing a class adds the members of its lineage that its entry lacks, once. -/
theorem complete_value (table : Table) (hierarchy : Hierarchy) (name : ClassName) :
    (table.complete hierarchy name).value
      = if table.isCompleted name then table
        else table.update name (ClassEntry.completeWith (table.inheritedFields hierarchy name)
          (table.inheritedMethods hierarchy name)) := by
  unfold complete
  split
  · rfl
  · exact update_congr rfl

/-- The entry of a class that is completed for the first time. -/
theorem find?_complete_self {table : Table} {hierarchy : Hierarchy} {name : ClassName}
    (todo : table.isCompleted name = false) :
    (table.complete hierarchy name).value.find? name
      = some ((table.entryOf name).completeWith (table.inheritedFields hierarchy name)
        (table.inheritedMethods hierarchy name)) := by
  rw [complete_value, todo, if_neg Bool.false_ne_true, find?_update_self, entryOf]

/-! ## Classes that nothing is known about -/

/-- A class that is not known has no ancestors. -/
theorem lineage_of_unknown {hierarchy : Hierarchy} {name : ClassName}
    (unknown : hierarchy.find? name = none) : hierarchy.lineage name = [name] := by
  have noParents : hierarchy.parents name = [] := by
    simp [Hierarchy.parents, unknown]
  rw [Hierarchy.lineage, Hierarchy.ancestors, Hierarchy.search, noParents, Hierarchy.unseen]
  simp [Hierarchy.search]

/-- Completing a class that nothing is known about only marks its entry. -/
theorem complete_of_unknown {table : Table} {hierarchy : Hierarchy} {name : ClassName}
    (unknown : hierarchy.find? name = none) (todo : table.isCompleted name = false) :
    (table.complete hierarchy name).value = table.update name (ClassEntry.completeWith [] []) := by
  have fields : table.inheritedFields hierarchy name = [] := by
    simp [inheritedFields, lineage_of_unknown unknown, collectFields, declaredFields, unknown]
  have methods : table.inheritedMethods hierarchy name = [] := by
    simp [inheritedMethods, lineage_of_unknown unknown, collectMethods, declaredMethods, unknown]
  rw [complete_value, fields, methods, todo]
  rfl

/-! ## Collected members and their names -/

/-- What the classes of a lineage have for a member first is stored for it in one of them. -/
theorem mem_of_findSome? {σ μ : Type} [DecidableEq σ] {table : Table} {members : ClassEntry → List (σ × μ)}
    {lineage : List ClassName} {signature : σ} {mapping : μ}
    (nearest : (lineage.findSome? fun owner =>
      (table.find? owner).bind fun entry => Assoc.find? signature (members entry)) = some mapping) :
    ∃ owner entry, table.find? owner = some entry ∧ (signature, mapping) ∈ members entry := by
  obtain ⟨owner, _, inOwner⟩ := List.exists_of_findSome?_eq_some nearest
  obtain ⟨entry, present, stored⟩ := Option.bind_eq_some_iff.1 inOwner
  exact ⟨owner, entry, present, Assoc.mem_of_find? stored⟩

/-- The nearest name of a field is stored for it somewhere; without any, the field keeps its name. -/
theorem nearestFieldName_cases (table : Table) (lineage : List ClassName) (signature : FieldSignature) :
    table.nearestFieldName lineage signature = signature.name
      ∨ ∃ owner entry mapping, table.find? owner = some entry ∧ (signature, mapping) ∈ entry.fields
        ∧ table.nearestFieldName lineage signature = mapping.mapped := by
  unfold nearestFieldName
  cases nearest : lineage.findSome? fun owner => (table.find? owner).bind (·.field? signature) with
  | none => exact .inl rfl
  | some mapping =>
      obtain ⟨owner, entry, present, stored⟩ := mem_of_findSome? nearest
      exact .inr ⟨owner, entry, mapping, present, stored, rfl⟩

/-- The nearest name of a method is stored for it somewhere; without any, the method keeps its name. -/
theorem nearestMethodName_cases (table : Table) (lineage : List ClassName) (signature : MethodSignature) :
    table.nearestMethodName lineage signature = signature.name
      ∨ ∃ owner entry mapping, table.find? owner = some entry ∧ (signature, mapping) ∈ entry.methods
        ∧ table.nearestMethodName lineage signature = mapping.mapped := by
  unfold nearestMethodName
  cases nearest : lineage.findSome? fun owner => (table.find? owner).bind (·.method? signature) with
  | none => exact .inl rfl
  | some mapping =>
      obtain ⟨owner, entry, present, stored⟩ := mem_of_findSome? nearest
      exact .inr ⟨owner, entry, mapping, present, stored, rfl⟩

/-! ## Collecting members of one kind -/

section Collecting

variable {σ ν : Type} [DecidableEq σ] {declared : Bool → ClassName → List σ}
  {nearest : List ClassName → σ → ν}

/-- Collects what is declared along a lineage with the nearest names, be it fields or methods. -/
def collect (declared : Bool → ClassName → List σ) (nearest : List ClassName → σ → ν) (isBottom : Bool) :
    List ClassName → List (σ × ν) → List (σ × ν)
  | [], collected => collected
  | owner :: above, collected =>
    collect declared nearest false above ((declared isBottom owner).foldl
      (fun found key => Assoc.addNew key (nearest (owner :: above) key) found) collected)

/-- Fields are collected as members are. -/
theorem collectFields_eq_collect (table : Table) (hierarchy : Hierarchy) (isBottom : Bool)
    (lineage : List ClassName) (collected : List (FieldSignature × FieldName)) :
    table.collectFields hierarchy isBottom lineage collected
      = collect (declaredFields hierarchy) table.nearestFieldName isBottom lineage collected := by
  induction lineage generalizing isBottom collected with
  | nil => rfl
  | cons owner above ih => exact ih false _

/-- Methods are collected as members are. -/
theorem collectMethods_eq_collect (table : Table) (hierarchy : Hierarchy) (isBottom : Bool)
    (lineage : List ClassName) (collected : List (MethodSignature × MethodName)) :
    table.collectMethods hierarchy isBottom lineage collected
      = collect (declaredMethods hierarchy) table.nearestMethodName isBottom lineage collected := by
  induction lineage generalizing isBottom collected with
  | nil => rfl
  | cons owner above ih => exact ih false _

private theorem forall_foldl_addNew {property : σ × ν → Prop} {name : σ → ν}
    (named : ∀ key, property (key, name key)) (keys : List σ) {collected : List (σ × ν)}
    (all : ∀ member ∈ collected, property member) :
    ∀ member ∈ keys.foldl (fun found key => Assoc.addNew key (name key) found) collected,
      property member := by
  induction keys generalizing collected with
  | nil => exact all
  | cons key rest ih =>
      apply ih
      intro member isMember
      simp only [Assoc.addNew] at isMember
      split at isMember
      · exact all member isMember
      · rcases List.mem_append.1 isMember with old | new
        · exact all member old
        · rw [List.mem_singleton.1 new]
          exact named key

/-- What holds of the nearest names holds of all that is collected. -/
theorem forall_collect {property : σ × ν → Prop}
    (named : ∀ lineage key, property (key, nearest lineage key)) (isBottom : Bool)
    (lineage : List ClassName) {collected : List (σ × ν)} (all : ∀ member ∈ collected, property member) :
    ∀ member ∈ collect declared nearest isBottom lineage collected, property member := by
  induction lineage generalizing isBottom collected with
  | nil => exact all
  | cons owner above ih => exact ih false (forall_foldl_addNew (named _) _ all)

private theorem unique_foldl_addNew (name : σ → ν) (keys : List σ) {collected : List (σ × ν)}
    (unique : Assoc.Unique collected) :
    Assoc.Unique (keys.foldl (fun found key => Assoc.addNew key (name key) found) collected) := by
  induction keys generalizing collected with
  | nil => exact unique
  | cons key rest ih => exact ih (unique.addNew key (name key))

/-- No member is collected twice. -/
theorem unique_collect (isBottom : Bool) (lineage : List ClassName) {collected : List (σ × ν)}
    (unique : Assoc.Unique collected) :
    Assoc.Unique (collect declared nearest isBottom lineage collected) := by
  induction lineage generalizing isBottom collected with
  | nil => exact unique
  | cons owner above ih => exact ih false (unique_foldl_addNew _ _ unique)

private theorem find?_foldl_addNew (name : σ → ν) (keys : List σ) (key : σ) (collected : List (σ × ν)) :
    Assoc.find? key (keys.foldl (fun found key => Assoc.addNew key (name key) found) collected)
      = (Assoc.find? key collected).or (if key ∈ keys then some (name key) else none) := by
  induction keys generalizing collected with
  | nil => simp
  | cons first rest ih =>
      rw [List.foldl_cons, ih, Assoc.find?_addNew]
      by_cases same : first = key
      · subst same
        cases Assoc.find? first collected <;> simp
      · simp [same, Ne.symm same]

/-- The class at some depth of a lineage declares a member for the class at the bottom. -/
def DeclaredAt (declared : Bool → ClassName → List σ) (isBottom : Bool) (lineage : List ClassName)
    (depth : Nat) (key : σ) : Prop :=
  ∃ owner, lineage[depth]? = some owner ∧ key ∈ declared (isBottom && depth == 0) owner

omit [DecidableEq σ] in
/-- At the first class its own declarations count. -/
theorem declaredAt_zero {isBottom : Bool} {owner : ClassName} {above : List ClassName} {key : σ} :
    DeclaredAt declared isBottom (owner :: above) 0 key ↔ key ∈ declared isBottom owner := by
  simp [DeclaredAt]

omit [DecidableEq σ] in
/-- Further on, none of the classes is the bottom one. -/
theorem declaredAt_succ {isBottom : Bool} {owner : ClassName} {above : List ClassName} {depth : Nat}
    {key : σ} :
    DeclaredAt declared isBottom (owner :: above) (depth + 1) key
      ↔ DeclaredAt declared false above depth key := by
  simp [DeclaredAt]

/-- What was collected before stays. -/
theorem find?_collect_of_some {key : σ} {named : ν} (isBottom : Bool) (lineage : List ClassName)
    {collected : List (σ × ν)} (found : Assoc.find? key collected = some named) :
    Assoc.find? key (collect declared nearest isBottom lineage collected) = some named := by
  induction lineage generalizing isBottom collected with
  | nil => exact found
  | cons owner above ih =>
      apply ih false
      rw [find?_foldl_addNew, found, Option.some_or]

/-- A member that no class of the lineage declares is not collected. -/
theorem find?_collect_of_undeclared {key : σ} {isBottom : Bool} {lineage : List ClassName}
    (undeclared : ∀ depth, ¬DeclaredAt declared isBottom lineage depth key) {collected : List (σ × ν)}
    (absent : Assoc.find? key collected = none) :
    Assoc.find? key (collect declared nearest isBottom lineage collected) = none := by
  induction lineage generalizing isBottom collected with
  | nil => exact absent
  | cons owner above ih =>
      apply ih (fun depth => mt declaredAt_succ.2 (undeclared (depth + 1)))
      rw [find?_foldl_addNew, absent, if_neg (mt declaredAt_zero.2 (undeclared 0)), Option.none_or]

/-- A member gets the name that is nearest to the first class of the lineage that declares it. -/
theorem find?_collect_of_first {key : σ} {isBottom : Bool} {lineage : List ClassName} {depth : Nat}
    (here : DeclaredAt declared isBottom lineage depth key)
    (first : ∀ earlier < depth, ¬DeclaredAt declared isBottom lineage earlier key)
    {collected : List (σ × ν)} (absent : Assoc.find? key collected = none) :
    Assoc.find? key (collect declared nearest isBottom lineage collected)
      = some (nearest (lineage.drop depth) key) := by
  induction lineage generalizing isBottom depth collected with
  | nil =>
      obtain ⟨owner, isOwner, _⟩ := here
      simp at isOwner
  | cons owner above ih =>
      cases depth with
      | zero =>
          apply find?_collect_of_some false above
          rw [find?_foldl_addNew, absent, if_pos (declaredAt_zero.1 here), Option.none_or]
          rfl
      | succ depth =>
          apply ih (declaredAt_succ.1 here)
          · intro earlier before
            exact mt declaredAt_succ.2 (first (earlier + 1) (Nat.succ_lt_succ before))
          · rw [find?_foldl_addNew, absent, if_neg (mt declaredAt_zero.2 (first 0 depth.succ_pos)),
              Option.none_or]

end Collecting

/-! ## Inherited members -/

/-- What holds of the nearest names holds of all inherited fields. -/
theorem forall_inheritedFields {table : Table} {hierarchy : Hierarchy} {name : ClassName}
    {property : FieldSignature × FieldName → Prop}
    (nearest : ∀ lineage signature, property (signature, table.nearestFieldName lineage signature)) :
    ∀ field ∈ table.inheritedFields hierarchy name, property field := by
  rw [inheritedFields, collectFields_eq_collect]
  exact forall_collect nearest true _ (by simp)

/-- What holds of the nearest names holds of all inherited methods. -/
theorem forall_inheritedMethods {table : Table} {hierarchy : Hierarchy} {name : ClassName}
    {property : MethodSignature × MethodName → Prop}
    (nearest : ∀ lineage signature, property (signature, table.nearestMethodName lineage signature)) :
    ∀ method ∈ table.inheritedMethods hierarchy name, property method := by
  rw [inheritedMethods, collectMethods_eq_collect]
  exact forall_collect nearest true _ (by simp)

/-- No field is inherited twice. -/
theorem unique_inheritedFields (table : Table) (hierarchy : Hierarchy) (name : ClassName) :
    Assoc.Unique (table.inheritedFields hierarchy name) := by
  rw [inheritedFields, collectFields_eq_collect]
  exact unique_collect true _ Assoc.unique_nil

/-- No method is inherited twice. -/
theorem unique_inheritedMethods (table : Table) (hierarchy : Hierarchy) (name : ClassName) :
    Assoc.Unique (table.inheritedMethods hierarchy name) := by
  rw [inheritedMethods, collectMethods_eq_collect]
  exact unique_collect true _ Assoc.unique_nil

/-! ## Adding what is missing -/

section Missing

variable {σ μ ν : Type} {mapping : σ → ν → μ} {members : List (σ × ν)}

private theorem keys_storedAs (mapping : σ → ν → μ) (members : List (σ × ν)) :
    (members.map (storedAs mapping)).map Prod.fst = members.map Prod.fst := by
  rw [List.map_map]
  rfl

variable [DecidableEq σ] {known : List (σ × μ)}

/-- Adding the members that an entry lacks keeps signatures apart. -/
theorem unique_append_missing (unique : Assoc.Unique known) (membersUnique : Assoc.Unique members) :
    Assoc.Unique (known ++ (missing known members).map (storedAs mapping)) := by
  have added : Assoc.Unique ((missing known members).map (storedAs mapping)) := by
    rw [Assoc.Unique, keys_storedAs]
    exact membersUnique.filter _
  refine unique.append added fun entry isAdded => ?_
  obtain ⟨member, isMissing, rfl⟩ := List.mem_map.1 isAdded
  simpa [storedAs] using (List.mem_filter.1 isMissing).2

/-- What holds of all members of an entry holds after adding those that it lacks, if it holds of them. -/
theorem all_append_missing {property : σ → μ → Prop} (all : Assoc.All property known)
    (added : ∀ member ∈ members, property member.1 (mapping member.1 member.2)) :
    Assoc.All property (known ++ (missing known members).map (storedAs mapping)) := by
  refine all.append fun entry isAdded => ?_
  obtain ⟨member, isMissing, rfl⟩ := List.mem_map.1 isAdded
  exact added member (List.mem_filter.1 isMissing).1

private theorem find?_storedAs (key : σ) (members : List (σ × ν)) :
    Assoc.find? key (members.map (storedAs mapping)) = (Assoc.find? key members).map (mapping key) := by
  induction members with
  | nil => rfl
  | cons member rest ih =>
      by_cases here : member.1 = key
      · simp [Assoc.find?, storedAs, here]
      · simp [Assoc.find?, storedAs, here, ih]

private theorem find?_missing {key : σ} (absent : Assoc.find? key known = none) (members : List (σ × ν)) :
    Assoc.find? key (missing known members) = Assoc.find? key members := by
  have keep : ∀ member : σ × ν, member.1 = key → (!Assoc.contains member.1 known) = true := by
    intro member isKey
    rw [isKey]
    simp [Assoc.contains, absent]
  unfold missing
  induction members with
  | nil => rfl
  | cons member rest ih =>
      by_cases here : member.1 = key
      · rw [List.filter_cons, if_pos (keep member here)]
        simp [Assoc.find?, here]
      · rw [List.filter_cons]
        split
        · simp only [Assoc.find?, if_neg here, ih]
        · simp only [Assoc.find?, if_neg here, ih]

/-- A known member stays, and another one is found among those that were to be added. -/
theorem find?_append_missing (key : σ) (known : List (σ × μ)) (members : List (σ × ν)) :
    Assoc.find? key (known ++ (missing known members).map (storedAs mapping))
      = (Assoc.find? key known).or ((Assoc.find? key members).map (mapping key)) := by
  rw [Assoc.find?_append, find?_storedAs]
  cases found : Assoc.find? key known with
  | some value => rfl
  | none => rw [Option.none_or, Option.none_or, find?_missing found]

end Missing

end Table

end MixinLink
