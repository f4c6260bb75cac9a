import MixinLink.Proofs.Readings

/-!
# The literals of a source file

The string literals of a source file that may name a class or a member, in the order in which they are
come to: class by class, the targets of the mixin first, and then the annotations of the methods. The list
is made from the declarations alone. What is read from an annotation has the literals that are listed for
it.

Main exports: `LiteralRole`, `LiteralSite`, `SourceUnit.literalSites`, `Linkage.sites_sublist_markSites`,
`MixinData.sites_of_ofClass?`.
-/

namespace MixinLink

variable {α β γ : Type}

/-! ## The literals of declarations -/

/-- What a literal stands for, which says how it is read. -/
inductive LiteralRole where
  | classTarget
  | fieldTarget
  | methodTarget
  /-- A target method of an injection. -/
  | memberTarget
  | pointTarget
deriving Repr, DecidableEq

/-- A text can be read by a literal in this role. -/
def LiteralRole.reads (text : String) : LiteralRole → Bool
  | classTarget => (ClassReference.parse text).isOk
  | fieldTarget => (FieldName.parse text).isOk
  | methodTarget => (MethodName.parse text).isOk
  | memberTarget => (MemberReference.parse text).isOk
  | pointTarget => (PointReference.parse text).isOk

/-- A string literal of a declaration with its role. -/
structure LiteralSite where
  literal : StringLiteral
  role : LiteralRole
deriving Repr, DecidableEq

/-- The literal can be read in its role. -/
def LiteralSite.isReadable (site : LiteralSite) : Bool :=
  site.role.reads site.literal.value

/-- The place and the value of the literal. -/
def LiteralSite.origin (site : LiteralSite) : Span × String :=
  (site.literal.span, site.literal.value)

namespace Annotation

/-- The value of an element, if it is of some kind. -/
def valueOf (mark : Annotation) (read : ElementValue → Option α) (name : String) : Option α :=
  (mark.element? name).bind read

/-- The values of an element that are of some kind; a value that is no array counts as one of one
element. -/
def valuesOf (mark : Annotation) (read : ElementValue → Option α) (name : String) : List α :=
  (mark.element? name).toList.flatMap fun value => value.values.filterMap read

/-- The literals of a string or an array of strings. -/
def stringSites (mark : Annotation) (name : String) (role : LiteralRole) : List LiteralSite :=
  (mark.valuesOf ElementValue.asString? name).map (⟨·, role⟩)

/-- The literal of a single string. -/
def stringSite (mark : Annotation) (name : String) (role : LiteralRole) : List LiteralSite :=
  (mark.valueOf ElementValue.asString? name).toList.map (⟨·, role⟩)

/-- The literals of an injection point. -/
def pointSites (mark : Annotation) : List LiteralSite :=
  mark.stringSite "target" .pointTarget

/-- The literals of a slice. -/
def sliceSites (mark : Annotation) : List LiteralSite :=
  (mark.valueOf ElementValue.asNested? "from").toList.flatMap pointSites
    ++ (mark.valueOf ElementValue.asNested? "to").toList.flatMap pointSites

/-- The literals of an injection: the target methods, the injection points, and those of the slices. -/
def injectionSites (mark : Annotation) : List LiteralSite :=
  mark.stringSites "method" .memberTarget
    ++ ((mark.valuesOf ElementValue.asNested? "at").flatMap pointSites
      ++ (mark.valuesOf ElementValue.asNested? "slice").flatMap sliceSites)

end Annotation

/-- The annotations that make injections. -/
def AnnotationName.injectors : List String :=
  [inject, redirect, modifyConstant, modifyVariable]

/-- The literals of an annotation of a method. -/
def MethodDecl.markSites (method : MethodDecl) (mark : Annotation) : List LiteralSite :=
  if mark.name = AnnotationName.accessor then mark.stringSite "value" .fieldTarget
  else if mark.name = AnnotationName.invoker then
    mark.stringSite "value" (if method.isStatic then .classTarget else .methodTarget)
  else if mark.name ∈ AnnotationName.injectors then mark.injectionSites
  else []

/-- The literals of a class, without those of the classes nested in it: first the targets of its first
`@Mixin`, and then those of its methods. -/
def ClassDecl.literalSites (decl : ClassDecl) : List LiteralSite :=
  (findAnnotation? decl.annotations AnnotationName.mixin).toList.flatMap
      (·.stringSites "targets" .classTarget)
    ++ decl.methods.flatMap fun method => method.annotations.flatMap method.markSites

/-- The literals of a source file. -/
def SourceUnit.literalSites (unit : SourceUnit) : List LiteralSite :=
  unit.walk.flatMap ClassDecl.literalSites

/-! ## What reading finds -/

namespace Annotation

variable {mark : Annotation} {name expected : String} {read : ElementValue → Option α}

private theorem readValues_eq_ok {values : List ElementValue} {results : List α}
    (success : mark.readValues name expected read values = .ok results) :
    results = values.filterMap read := by
  induction values generalizing results with
  | nil =>
      cases success
      rfl
  | cons value rest ih =>
      obtain ⟨first, readFirst, success⟩ := Checked.bind_eq_ok.1 success
      obtain ⟨others, readOthers, success⟩ := Checked.bind_eq_ok.1 success
      rw [← Checked.pure_eq_ok.1 success, ih readOthers]
      unfold readValue at readFirst
      split at readFirst
      · rename_i result isRead
        cases readFirst
        rw [List.filterMap_cons_some isRead]
      · cases readFirst

private theorem valuesOf_of_all {results : List α} (success : mark.all name expected read = .ok results) :
    mark.valuesOf read name = results := by
  unfold all at success
  unfold valuesOf
  cases found : mark.element? name with
  | none =>
      rw [found] at success
      cases success
      rfl
  | some value =>
      rw [found] at success
      rw [readValues_eq_ok success]
      simp

private theorem valueOf_of_single? {result : Option α}
    (success : mark.single? name expected read = .ok result) :
    mark.valueOf read name = result := by
  unfold single? at success
  unfold valueOf
  cases found : mark.element? name with
  | none =>
      rw [found] at success
      cases success
      rfl
  | some value =>
      rw [found] at success
      obtain ⟨first, readFirst, rfl⟩ := Checked.map_eq_ok.1 success
      unfold readValue at readFirst
      split at readFirst
      · rename_i isRead
        cases readFirst
        exact isRead
      · cases readFirst

end Annotation

namespace Reading

private theorem flatMap_of_each {read : α → Reading β} {before : α → List γ} {after : β → List γ}
    (same : ∀ item value, (read item).run.value = .ok value → after value = before item) {items : List α}
    {values : List β} (success : (Reading.each read items).run.value = .ok values) :
    values.flatMap after = items.flatMap before := by
  induction items generalizing values with
  | nil =>
      rw [← value_pure_eq_ok.1 success]
      rfl
  | cons item rest ih =>
      obtain ⟨first, readFirst, success⟩ := value_bind_eq_ok.1 success
      obtain ⟨others, readOthers, success⟩ := value_bind_eq_ok.1 success
      rw [← value_pure_eq_ok.1 success, List.flatMap_cons, List.flatMap_cons, same item first readFirst,
        ih readOthers]

private theorem flatMap_of_optional {read : α → Reading β} {before : α → List γ} {after : β → List γ}
    (same : ∀ item value, (read item).run.value = .ok value → after value = before item) {item : Option α}
    {result : Option β} (success : (Reading.optional read item).run.value = .ok result) :
    result.toList.flatMap after = item.toList.flatMap before := by
  cases item with
  | none =>
      rw [← value_pure_eq_ok.1 success]
      rfl
  | some item =>
      obtain ⟨first, readFirst, rfl⟩ := value_map_eq_ok.1 success
      simpa using same item first readFirst

end Reading

/-- The literal with its role. -/
def ParsedLiteral.site (role : LiteralRole) (target : ParsedLiteral α) : LiteralSite :=
  ⟨target.literal, role⟩

/-- The literals of an injection point that was read. -/
def PointData.sites (point : PointData) : List LiteralSite :=
  point.target.toList.map (ParsedLiteral.site .pointTarget)

/-- The literals of an injection that was read. -/
def InjectData.sites (data : InjectData) : List LiteralSite :=
  data.methods.map (ParsedLiteral.site .memberTarget) ++ data.allPoints.flatMap PointData.sites

/-- The literals of a linkage of a method. -/
def Linkage.sites (linkage : Linkage) : List LiteralSite :=
  match linkage with
  | getter data => data.target.toList.map (⟨·, .fieldTarget⟩)
  | setter data => data.target.toList.map (⟨·, .fieldTarget⟩)
  | proxy data => data.target.toList.map (⟨·, .methodTarget⟩)
  | factory data => data.target.toList.map (⟨·, .classTarget⟩)
  | inject data => data.sites
  | redirect data => data.sites
  | modifyConstant data => data.sites
  | modifyVariable data => data.sites
  | _ => []

private theorem sites_parseLiterals (parse : String → Checked α) (role : LiteralRole)
    (literals : List StringLiteral) :
    (parseLiterals parse literals).value.map (ParsedLiteral.site role) = literals.map (⟨·, role⟩) := by
  induction literals with
  | nil => rfl
  | cons literal rest ih =>
      simp only [parseLiterals, Noted.value_bind, Noted.value_pure, List.map_cons, ih,
        ParsedLiteral.site, literal_parseLiteral]

private theorem PointData.sites_of_ofMark {mark : Annotation} {point : PointData}
    (success : (ofMark mark).run.value = .ok point) : point.sites = mark.pointSites := by
  unfold ofMark at success
  split at success
  · obtain ⟨value, _, success⟩ := Reading.value_bind_eq_ok.1 success
    obtain ⟨literal, isLiteral, success⟩ := Reading.value_bind_eq_ok.1 success
    obtain ⟨parsed, readLiteral, success⟩ := Reading.value_bind_eq_ok.1 success
    rw [← Reading.value_pure_eq_ok.1 success]
    have found := Annotation.valueOf_of_single? isLiteral
    have each : ∀ (literal : StringLiteral) (target : ParsedLiteral PointReference),
        (Reading.note (parseLiteral PointReference.parse literal)).run.value = .ok target →
          [target.site .pointTarget] = [⟨literal, .pointTarget⟩] := by
      intro literal target readTarget
      cases readTarget
      rw [ParsedLiteral.site, literal_parseLiteral]
    have same := Reading.flatMap_of_optional each readLiteral
    rw [sites, Annotation.pointSites, Annotation.stringSite, found, List.map_eq_flatMap, same,
      List.map_eq_flatMap]
  · simp at success

private theorem SliceData.sites_of_ofMark {mark : Annotation} {slice : SliceData}
    (success : (ofMark mark).run.value = .ok slice) :
    (slice.start.toList ++ slice.stop.toList).flatMap PointData.sites = mark.sliceSites := by
  unfold ofMark at success
  have each : ∀ mark point, (PointData.ofMark mark).run.value = .ok point →
      point.sites = mark.pointSites :=
    fun _ _ => PointData.sites_of_ofMark
  split at success
  · obtain ⟨start, isStart, success⟩ := Reading.value_bind_eq_ok.1 success
    obtain ⟨startPoint, readStart, success⟩ := Reading.value_bind_eq_ok.1 success
    obtain ⟨stop, isStop, success⟩ := Reading.value_bind_eq_ok.1 success
    obtain ⟨stopPoint, readStop, success⟩ := Reading.value_bind_eq_ok.1 success
    rw [← Reading.value_pure_eq_ok.1 success, List.flatMap_append, Annotation.sliceSites,
      Annotation.valueOf_of_single? isStart, Annotation.valueOf_of_single? isStop,
      Reading.flatMap_of_optional each readStart, Reading.flatMap_of_optional each readStop]
  · simp at success

private theorem InjectData.sites_of_ofMark {mark : Annotation} {data : InjectData}
    (success : (ofMark mark).run.value = .ok data) : data.sites = mark.injectionSites := by
  unfold ofMark at success
  obtain ⟨literals, isLiterals, success⟩ := Reading.value_bind_eq_ok.1 success
  obtain ⟨methods, readMethods, success⟩ := Reading.value_bind_eq_ok.1 success
  obtain ⟨pointMarks, isPoints, success⟩ := Reading.value_bind_eq_ok.1 success
  obtain ⟨points, readPoints, success⟩ := Reading.value_bind_eq_ok.1 success
  obtain ⟨sliceMarks, isSlices, success⟩ := Reading.value_bind_eq_ok.1 success
  obtain ⟨slices, readSlices, success⟩ := Reading.value_bind_eq_ok.1 success
  rw [← Reading.value_pure_eq_ok.1 success]
  cases readMethods
  simp only [sites, allPoints, List.flatMap_append, List.flatMap_assoc, sites_parseLiterals]
  unfold Annotation.injectionSites Annotation.stringSites
  rw [Reading.flatMap_of_each (fun _ _ => PointData.sites_of_ofMark) readPoints,
    Annotation.valuesOf_of_all isLiterals, Annotation.valuesOf_of_all isPoints,
    Annotation.valuesOf_of_all isSlices,
    ← Reading.flatMap_of_each (fun _ _ => SliceData.sites_of_ofMark) readSlices]
  simp only [List.flatMap_append]

/-- An accessor has the literal of its annotation, unless that is empty. -/
theorem AccessorData.target_of_ofMark {mark : Annotation} {data : AccessorData} (role : LiteralRole)
    (success : ofMark mark = .ok data) :
    (data.target.toList.map fun literal => (⟨literal, role⟩ : LiteralSite)).Sublist
      (mark.stringSite "value" role) := by
  obtain ⟨_, _, success⟩ := Checked.bind_eq_ok.1 success
  obtain ⟨target, isTarget, success⟩ := Checked.bind_eq_ok.1 success
  rw [← Checked.pure_eq_ok.1 success, Annotation.stringSite, Annotation.valueOf_of_single? isTarget]
  apply List.Sublist.map
  cases target with
  | none => exact .refl _
  | some literal =>
      by_cases empty : literal.value ≠ ""
      · simp [Option.filter, empty]
      · simp [Option.filter, empty]

/-- The literals of a linkage are literals of its annotation. -/
theorem Linkage.sites_sublist_markSites {mark : Annotation} {method : MethodDecl} {linkage : Linkage}
    (success : (ofMethod? mark method).run.value = .ok (some linkage)) :
    linkage.sites.Sublist (method.markSites mark) := by
  have ofInjection : ∀ {make : InjectData → Linkage}, (∀ data, (make data).sites = data.sites) →
      mark.name ∈ AnnotationName.injectors →
      (InjectData.ofMark mark >>= fun data => (pure (some (make data)) : Reading _)).run.value
        = .ok (some linkage) → linkage.sites.Sublist (method.markSites mark) := by
    intro make makes isMark success
    obtain ⟨data, readData, success⟩ := Reading.value_bind_eq_ok.1 success
    cases Reading.value_pure_eq_ok.1 success
    have others : mark.name ≠ AnnotationName.accessor ∧ mark.name ≠ AnnotationName.invoker := by
      simp only [AnnotationName.injectors, List.mem_cons, List.not_mem_nil, or_false] at isMark
      rcases isMark with same | same | same | same <;> rw [same] <;> decide
    have listed : method.markSites mark = (make data).sites := by
      rw [MethodDecl.markSites, if_neg others.1, if_neg others.2, if_pos isMark, makes,
        InjectData.sites_of_ofMark readData]
    exact listed ▸ List.Sublist.refl _
  unfold ofMethod? at success
  split at success
  · obtain ⟨data, _, success⟩ := Reading.value_bind_eq_ok.1 success
    cases Reading.value_pure_eq_ok.1 success
    exact List.nil_sublist _
  split at success
  · cases Reading.value_pure_eq_ok.1 success
    exact List.nil_sublist _
  split at success
  · rename_i isAccessor
    obtain ⟨data, readData, success⟩ := Reading.value_bind_eq_ok.1 success
    cases Reading.value_pure_eq_ok.1 success
    rw [MethodDecl.markSites, if_pos isAccessor]
    have listed := AccessorData.target_of_ofMark .fieldTarget readData
    by_cases isSetter : method.type.result = none
    · simpa [AccessorKind.ofMethod, isSetter, ofAccessor, sites] using listed
    · simpa [AccessorKind.ofMethod, isSetter, ofAccessor, sites] using listed
  split at success
  · rename_i notAccessor isInvoker
    obtain ⟨data, readData, success⟩ := Reading.value_bind_eq_ok.1 success
    cases Reading.value_pure_eq_ok.1 success
    rw [MethodDecl.markSites, if_neg notAccessor, if_pos isInvoker]
    cases isStatic : method.isStatic with
    | true =>
        simpa [AccessorKind.ofMethod, isStatic, ofAccessor, sites]
          using AccessorData.target_of_ofMark .classTarget readData
    | false =>
        simpa [AccessorKind.ofMethod, isStatic, ofAccessor, sites]
          using AccessorData.target_of_ofMark .methodTarget readData
  split at success
  · rename_i isMark
    exact ofInjection (fun _ => rfl) (by simp [AnnotationName.injectors, isMark]) success
  split at success
  · rename_i isMark
    exact ofInjection (fun _ => rfl) (by simp [AnnotationName.injectors, isMark]) success
  split at success
  · rename_i isMark
    exact ofInjection (fun _ => rfl) (by simp [AnnotationName.injectors, isMark]) success
  split at success
  · rename_i isMark
    exact ofInjection (fun _ => rfl) (by simp [AnnotationName.injectors, isMark]) success
  · cases Reading.value_pure_eq_ok.1 success

/-- The strings among the targets of a mixin, as they stand in its annotation. -/
theorem MixinData.sites_of_ofClass? {decl : ClassDecl} {mixin : MixinData}
    (success : (ofClass? decl).run.value = .ok (some mixin)) :
    mixin.privateTargets.map (ParsedLiteral.site .classTarget)
      = (findAnnotation? decl.annotations AnnotationName.mixin).toList.flatMap
        (·.stringSites "targets" .classTarget) := by
  obtain ⟨mark, literals, found, isLiterals, isPrivate⟩ := privateTargets_of_ofClass? success
  have listed := Annotation.valuesOf_of_all isLiterals
  simp [isPrivate, found, sites_parseLiterals, Annotation.stringSites, listed]

end MixinLink
