import MixinLink.Linkage

/-!
# What reading annotations gives

A reading that succeeds has succeeded in all its parts. From this follows what a linkage tells about the
annotation it was read from: its literals come with what they were read as, and only accessor
annotations make accessors.

Main exports: `Reading.value_bind_eq_ok`, `InjectData.ReadByParse`, `Linkage.readFrom_ofMethod?`.
-/

namespace MixinLink

/-! ## Parts of a reading -/

namespace Reading

variable {α β : Type}

/-- Two readings succeed if the first does and then the second. -/
theorem value_bind_eq_ok {reading : Reading α} {next : α → Reading β} {value : β} :
    (reading >>= next).run.value = .ok value
      ↔ ∃ first, reading.run.value = .ok first ∧ (next first).run.value = .ok value := by
  have run : (reading >>= next).run = reading.run >>= ExceptT.bindCont next := rfl
  rw [run, Noted.value_bind]
  cases reading.run.value with
  | error failure => simp [ExceptT.bindCont]
  | ok first => simp [ExceptT.bindCont, ExceptT.run]

/-- A check that comes first decides whether there is more. -/
theorem value_check_bind (result : Checked α) (next : α → Reading β) :
    (check result >>= next).run.value = result >>= fun first => (next first).run.value := by
  cases result with
  | error failure => rfl
  | ok first => rfl

/-- A plain value is read as it is. -/
theorem value_pure_eq_ok {first value : α} :
    (pure first : Reading α).run.value = .ok value ↔ first = value := by
  simp

/-- Changing the value does not change whether something is read. -/
theorem value_map_eq_ok {reading : Reading α} {f : α → β} {value : β} :
    (f <$> reading).run.value = .ok value ↔ ∃ first, reading.run.value = .ok first ∧ f first = value := by
  have asBind : (f <$> reading).run.value = (reading >>= fun first => pure (f first)).run.value := rfl
  rw [asBind, value_bind_eq_ok]
  simp only [value_pure_eq_ok]

/-- A check as a reading. -/
@[simp]
theorem value_check (result : Checked α) : (check result).run.value = result := rfl

/-- Log entries can be read without failure. -/
@[simp]
theorem value_note (result : Noted α) : (note result).run.value = .ok result.value := rfl

/-- A step around a reading is a step around its failure. -/
@[simp]
theorem value_within (context : Context) (reading : Reading α) :
    (within context reading).run.value = Checked.within context reading.run.value := rfl

private theorem forall_of_each {read : α → Reading β} {property : β → Prop}
    (each : ∀ item value, (read item).run.value = .ok value → property value) {items : List α}
    {values : List β} (success : (Reading.each read items).run.value = .ok values) :
    ∀ value ∈ values, property value := by
  induction items generalizing values with
  | nil =>
      rw [← value_pure_eq_ok.1 success]
      simp
  | cons item rest ih =>
      obtain ⟨first, readFirst, success⟩ := value_bind_eq_ok.1 success
      obtain ⟨others, readOthers, success⟩ := value_bind_eq_ok.1 success
      rw [← value_pure_eq_ok.1 success]
      intro value member
      rcases List.mem_cons.1 member with rfl | later
      · exact each item value readFirst
      · exact ih readOthers value later

private theorem of_optional {read : α → Reading β} {property : β → Prop}
    (each : ∀ item value, (read item).run.value = .ok value → property value) {item : Option α}
    {result : Option β} (success : (Reading.optional read item).run.value = .ok result) :
    ∀ value ∈ result, property value := by
  cases item with
  | none =>
      rw [← value_pure_eq_ok.1 success]
      simp
  | some item =>
      obtain ⟨first, readFirst, rfl⟩ := value_map_eq_ok.1 success
      intro value isFirst
      cases isFirst
      exact each item first readFirst

end Reading

/-! ## Literals -/

/-- The literal comes with what a reader makes of it. -/
def ParsedLiteral.ReadBy {α : Type} (parse : String → Checked α) (target : ParsedLiteral α) : Prop :=
  target.parsed = (parse target.literal.value).toOption

/-- What a literal is taken for is what its value is read as. -/
theorem ParsedLiteral.ReadBy.parsed_eq_some {α : Type} {parse : String → Checked α}
    {target : ParsedLiteral α} {value : α} (readBy : target.ReadBy parse) :
    target.parsed = some value ↔ parse target.literal.value = .ok value := by
  rw [readBy]
  cases parse target.literal.value with
  | ok read => simp [Except.toOption]
  | error failure => simp [Except.toOption]

/-- The literal itself is kept. -/
theorem literal_parseLiteral {α : Type} (parse : String → Checked α) (literal : StringLiteral) :
    (parseLiteral parse literal).value.literal = literal := by
  unfold parseLiteral
  split
  · rfl
  · rfl

/-- A literal is taken for what its value is read as. -/
theorem readBy_parseLiteral {α : Type} (parse : String → Checked α) (literal : StringLiteral) :
    (parseLiteral parse literal).value.ReadBy parse := by
  unfold parseLiteral ParsedLiteral.ReadBy
  split
  · rename_i value success
    simp [success, Except.toOption]
  · rename_i failure success
    simp [success, Except.toOption]

/-- The same, with the literal as it was given. -/
theorem parsed_parseLiteral {α : Type} (parse : String → Checked α) (literal : StringLiteral) :
    (parseLiteral parse literal).value.parsed = (parse literal.value).toOption := by
  have readBy := readBy_parseLiteral parse literal
  rwa [ParsedLiteral.ReadBy, literal_parseLiteral] at readBy

private theorem readBy_parseLiterals {α : Type} (parse : String → Checked α)
    (literals : List StringLiteral) :
    ∀ target ∈ (parseLiterals parse literals).value, target.ReadBy parse := by
  induction literals with
  | nil => simp [parseLiterals]
  | cons literal rest ih =>
      intro target member
      simp only [parseLiterals, Noted.value_bind, Noted.value_pure, List.mem_cons] at member
      rcases member with rfl | later
      · exact readBy_parseLiteral parse literal
      · exact ih target later

/-- The target of an injection point, if it has one, comes with what it was read as. -/
def PointData.ReadByParse (point : PointData) : Prop :=
  ∀ target ∈ point.target, target.ReadBy PointReference.parse

private theorem PointData.readBy_ofMark {mark : Annotation} {point : PointData}
    (success : (ofMark mark).run.value = .ok point) : point.ReadByParse := by
  unfold ofMark at success
  split at success
  · obtain ⟨value, _, success⟩ := Reading.value_bind_eq_ok.1 success
    obtain ⟨literal, _, success⟩ := Reading.value_bind_eq_ok.1 success
    obtain ⟨parsed, read, success⟩ := Reading.value_bind_eq_ok.1 success
    rw [← Reading.value_pure_eq_ok.1 success]
    refine Reading.of_optional (fun literal target readLiteral => ?_) read
    cases readLiteral
    exact readBy_parseLiteral _ _
  · simp at success

private theorem SliceData.readBy_ofMark {mark : Annotation} {slice : SliceData}
    (success : (ofMark mark).run.value = .ok slice) :
    ∀ point ∈ slice.start.toList ++ slice.stop.toList, point.ReadByParse := by
  unfold ofMark at success
  split at success
  · obtain ⟨_, _, success⟩ := Reading.value_bind_eq_ok.1 success
    obtain ⟨start, readStart, success⟩ := Reading.value_bind_eq_ok.1 success
    obtain ⟨_, _, success⟩ := Reading.value_bind_eq_ok.1 success
    obtain ⟨stop, readStop, success⟩ := Reading.value_bind_eq_ok.1 success
    rw [← Reading.value_pure_eq_ok.1 success]
    intro point member
    have each : ∀ mark point, (PointData.ofMark mark).run.value = .ok point → point.ReadByParse :=
      fun _ _ => PointData.readBy_ofMark
    rcases List.mem_append.1 member with isStart | isStop
    · exact Reading.of_optional each readStart point (by simpa using isStart)
    · exact Reading.of_optional each readStop point (by simpa using isStop)
  · simp at success

/-- The literals of an injection come with what they were read as. -/
structure InjectData.ReadByParse (data : InjectData) : Prop where
  methods : ∀ target ∈ data.methods, target.ReadBy MemberReference.parse
  points : ∀ point ∈ data.allPoints, point.ReadByParse

private theorem InjectData.readBy_ofMark {mark : Annotation} {data : InjectData}
    (success : (ofMark mark).run.value = .ok data) : data.ReadByParse := by
  unfold ofMark at success
  obtain ⟨literals, _, success⟩ := Reading.value_bind_eq_ok.1 success
  obtain ⟨methods, readMethods, success⟩ := Reading.value_bind_eq_ok.1 success
  obtain ⟨_, _, success⟩ := Reading.value_bind_eq_ok.1 success
  obtain ⟨points, readPoints, success⟩ := Reading.value_bind_eq_ok.1 success
  obtain ⟨_, _, success⟩ := Reading.value_bind_eq_ok.1 success
  obtain ⟨slices, readSlices, success⟩ := Reading.value_bind_eq_ok.1 success
  rw [← Reading.value_pure_eq_ok.1 success]
  refine ⟨?_, fun point member => ?_⟩
  · simp only [Reading.value_note, Except.ok.injEq] at readMethods
    rw [← readMethods]
    exact readBy_parseLiterals _ _
  · rcases List.mem_append.1 member with direct | sliced
    · exact Reading.forall_of_each (fun _ _ => PointData.readBy_ofMark) readPoints point direct
    · obtain ⟨slice, isSlice, atEnd⟩ := List.mem_flatMap.1 sliced
      exact Reading.forall_of_each (fun _ _ => SliceData.readBy_ofMark) readSlices slice isSlice
        point atEnd

/-! ## Mixins -/

/-- The strings among the targets of a mixin stand in its annotation, and come with what they were read
as. -/
theorem MixinData.privateTargets_of_ofClass? {decl : ClassDecl} {mixin : MixinData}
    (success : (ofClass? decl).run.value = .ok (some mixin)) :
    ∃ mark literals, findAnnotation? decl.annotations AnnotationName.mixin = some mark
      ∧ mark.strings "targets" = .ok literals
      ∧ mixin.privateTargets = (parseLiterals ClassReference.parse literals).value := by
  have whole := Checked.within_eq_ok.1 success
  cases found : findAnnotation? decl.annotations AnnotationName.mixin with
  | none =>
      rw [found] at whole
      cases Reading.value_pure_eq_ok.1 whole
  | some mark =>
      rw [found] at whole
      obtain ⟨_, readMark, isMixin⟩ := Reading.value_map_eq_ok.1 whole
      cases isMixin
      obtain ⟨_, _, readMark⟩ := Reading.value_bind_eq_ok.1 readMark
      obtain ⟨literals, isLiterals, readMark⟩ := Reading.value_bind_eq_ok.1 readMark
      obtain ⟨_, readTargets, readMark⟩ := Reading.value_bind_eq_ok.1 readMark
      cases readTargets
      rw [← Reading.value_pure_eq_ok.1 readMark]
      exact ⟨mark, literals, rfl, isLiterals, rfl⟩

/-- The targets of a mixin that are given by literals are read as classes. -/
theorem MixinData.readBy_ofClass? {decl : ClassDecl} {mixin : MixinData}
    (success : (ofClass? decl).run.value = .ok (some mixin)) :
    ∀ target ∈ mixin.privateTargets, target.ReadBy ClassReference.parse := by
  obtain ⟨_, literals, _, _, isPrivate⟩ := privateTargets_of_ofClass? success
  rw [isPrivate]
  exact readBy_parseLiterals _ _

/-! ## Linkages -/

namespace Linkage

/-- The data of an injection, if the linkage is one. -/
def injection? : Linkage → Option InjectData
  | inject data => some data
  | redirect data => some data
  | modifyConstant data => some data
  | modifyVariable data => some data
  | _ => none

/-- The linkage of a method that stands for a member under a name made of the member's name. -/
def isAccessor : Linkage → Bool
  | getter _ => true
  | setter _ => true
  | proxy _ => true
  | _ => false

/-- What a linkage tells about the annotation it was read from. -/
structure ReadFrom (mark : Annotation) (linkage : Linkage) : Prop where
  accessor : linkage.isAccessor = true →
    mark.name = AnnotationName.accessor ∨ mark.name = AnnotationName.invoker
  injection : ∀ data, linkage.injection? = some data → data.ReadByParse

/-- What is read from the mark of a method comes from the mark. -/
theorem readFrom_ofMethod? {mark : Annotation} {method : MethodDecl} {linkage : Linkage}
    (success : (ofMethod? mark method).run.value = .ok (some linkage)) : linkage.ReadFrom mark := by
  unfold ofMethod? at success
  have ofInjection : ∀ {make : InjectData → Linkage}, (∀ data, (make data).isAccessor = false) →
      (∀ data, (make data).injection? = some data) →
      (InjectData.ofMark mark >>= fun data => (pure (some (make data)) : Reading _)).run.value
        = .ok (some linkage) → linkage.ReadFrom mark := by
    intro make plain makes success
    obtain ⟨data, readData, success⟩ := Reading.value_bind_eq_ok.1 success
    cases Reading.value_pure_eq_ok.1 success
    refine ⟨fun accessor => ?_, fun other isData => ?_⟩
    · rw [plain] at accessor
      cases accessor
    · rw [makes] at isData
      cases isData
      exact InjectData.readBy_ofMark readData
  split at success
  · obtain ⟨data, _, success⟩ := Reading.value_bind_eq_ok.1 success
    cases Reading.value_pure_eq_ok.1 success
    exact ⟨by simp [isAccessor], by simp [injection?]⟩
  split at success
  · cases Reading.value_pure_eq_ok.1 success
    exact ⟨by simp [isAccessor], by simp [injection?]⟩
  split at success
  · rename_i isAccessorMark
    obtain ⟨data, _, success⟩ := Reading.value_bind_eq_ok.1 success
    cases Reading.value_pure_eq_ok.1 success
    refine ⟨fun _ => .inl isAccessorMark, ?_⟩
    cases AccessorKind.ofMethod false method <;> simp [ofAccessor, injection?]
  split at success
  · rename_i isInvokerMark
    obtain ⟨data, _, success⟩ := Reading.value_bind_eq_ok.1 success
    cases Reading.value_pure_eq_ok.1 success
    refine ⟨fun _ => .inr isInvokerMark, ?_⟩
    cases AccessorKind.ofMethod true method <;> simp [ofAccessor, injection?]
  split at success
  · exact ofInjection (fun _ => rfl) (fun _ => rfl) success
  split at success
  · exact ofInjection (fun _ => rfl) (fun _ => rfl) success
  split at success
  · exact ofInjection (fun _ => rfl) (fun _ => rfl) success
  split at success
  · exact ofInjection (fun _ => rfl) (fun _ => rfl) success
  · cases Reading.value_pure_eq_ok.1 success

end Linkage

end MixinLink
