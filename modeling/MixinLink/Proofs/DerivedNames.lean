import MixinLink.Proofs.AccessorNames
import MixinLink.Proofs.Searches

/-!
# Names that accessors get

An accessor without an explicit target gets a name made from its own lead and the mapped name of the
member that it finds. Whether the new name still tells that member depends on the mapped name alone.

Main exports: `FindsMember`, `derivedName_readBack_iff`.
-/

namespace MixinLink

/-- An accessor without an explicit target finds the member that its name tells, under a mapped
name. -/
inductive FindsMember (place : Place) (method : MethodDecl) (accessor : AccessorName) (table : Table) :
    Linkage → String → Prop where
  | getter {type : FieldType} {name mapped : FieldName} (typed : accessedType method true = .ok type)
      (named : FieldName.parse accessor.member = .ok name)
      (found : ((acrossTargets place (lookUpField ⟨name, some type⟩)).run table).value
        = .ok (.found mapped)) :
      FindsMember place method accessor table (.getter ⟨none⟩) mapped.text
  | setter {type : FieldType} {name mapped : FieldName} (typed : accessedType method false = .ok type)
      (named : FieldName.parse accessor.member = .ok name)
      (found : ((acrossTargets place (lookUpField ⟨name, some type⟩)).run table).value
        = .ok (.found mapped)) :
      FindsMember place method accessor table (.setter ⟨none⟩) mapped.text
  | proxy {name mapped : MethodName} (named : MethodName.parse accessor.member = .ok name)
      (found : ((acrossTargets place (lookUpMethod ⟨name, method.type⟩)).run table).value
        = .ok (.found mapped)) :
      FindsMember place method accessor table (.proxy ⟨none⟩) mapped.text

section

variable {hierarchy : Hierarchy} {place : Place} {method : MethodDecl} {accessor : AccessorName}
  {table : Table} {mapped : String}

/-- The run of an attempt ends like the run of another one from some table, which is sound if the table
at the start is. -/
def EndsLike (attempt last : Attempt Unit) (table : Table) : Prop :=
  ∃ now, (table.Sound → now.Sound) ∧ (attempt.run table).value = (last.run now).value
    ∧ (attempt.run table).table = (last.run now).table

/-- An attempt that begins with a success ends like what follows. -/
theorem EndsLike.of_bind {α : Type} {first : Attempt α} {rest : α → Attempt Unit} {last : Attempt Unit}
    {value : α} (success : (first.run table).value = .ok value)
    (keeps : table.Sound → (first.run table).table.Sound)
    (ends : EndsLike (rest value) last (first.run table).table) : EndsLike (first >>= rest) last table := by
  obtain ⟨now, stillSound, sameValue, sameTable⟩ := ends
  rw [EndsLike, Attempt.run_bind_of_ok success]
  exact ⟨now, fun sound => stillSound (keeps sound), sameValue, sameTable⟩

/-- What goes on with a member ends like what is done with the member that is found. -/
theorem EndsLike.of_found {α : Type} {find : Attempt (Resolved α)} {value : α} {missing : String}
    {use : α → Attempt Unit} (found : (find.run table).value = .ok (.found value))
    (keeps : table.Sound → (find.run table).table.Sound) :
    EndsLike (whenFound find missing use) (use value) table :=
  .of_bind found keeps ⟨_, id, rfl, rfl⟩

/-- An accessor without an explicit target is for the member that its name tells. -/
theorem accessedMember_of_untargeted {α : Type} {parse : String → Checked α} {name : α}
    (parsed : AccessorName.parse? method.name.text = some accessor)
    (named : parse accessor.member = .ok name) (untold : String)
    (rest : Option (α × AccessorUse) → Attempt Unit) :
    accessedMember parse method ⟨none⟩ untold >>= rest = rest (some (name, .inflected accessor)) := by
  simp only [accessedMember, parsed, named]
  rfl

/-- An accessor of a field that is found ends by getting its name. -/
theorem endsLike_remapFieldAccessor {isGetter : Bool} {type : FieldType} {name mapped : FieldName}
    (parsed : AccessorName.parse? method.name.text = some accessor)
    (typed : accessedType method isGetter = .ok type)
    (named : FieldName.parse accessor.member = .ok name)
    (found : ((findField place ⟨name, some type⟩).run table).value = .ok (.found mapped)) :
    EndsLike (remapFieldAccessor place method ⟨none⟩ isGetter)
      (nameMethod place.className method (accessor.withMember mapped.text)) table := by
  unfold remapFieldAccessor
  refine .of_bind (by rw [Attempt.run_check, typed]) id ?_
  rw [accessedMember_of_untargeted parsed named]
  refine .of_found found fun sound => ?_
  exact sound.looksUps (stays_acrossTargets place (stably_lookUpField sound _) .refl).1

/-- An accessor that calls a method that is found ends by getting its name. -/
theorem endsLike_remapProxy {name mapped : MethodName}
    (parsed : AccessorName.parse? method.name.text = some accessor)
    (named : MethodName.parse accessor.member = .ok name)
    (found : ((findMethod place ⟨name, method.type⟩).run table).value = .ok (.found mapped)) :
    EndsLike (remapProxy place method ⟨none⟩)
      (nameMethod place.className method (accessor.withMember mapped.text)) table := by
  unfold remapProxy
  rw [accessedMember_of_untargeted parsed named]
  refine .of_found found fun sound => ?_
  exact sound.looksUps (stays_acrossTargets place (stably_lookUpMethod table _) .refl).1

/-- An accessor that finds its member is named after it. -/
theorem FindsMember.endsLike {linkage : Linkage}
    (parsed : AccessorName.parse? method.name.text = some accessor)
    (finds : FindsMember place method accessor table linkage mapped) :
    EndsLike (remapMethodLinkage hierarchy place method linkage)
      (nameMethod place.className method (accessor.withMember mapped)) table := by
  cases finds with
  | getter typed named found => exact endsLike_remapFieldAccessor parsed typed named found
  | setter typed named found => exact endsLike_remapFieldAccessor parsed typed named found
  | proxy named found => exact endsLike_remapProxy parsed named found

/-- A method that gets a name has it from then on, and in a sound table its own signature. -/
theorem nameMethod_of_ok {className : ClassName} {text : String} {named : MethodName}
    (isName : MethodName.parse text = .ok named) :
    ((nameMethod className method text).run table).value = .ok ()
      ∧ (((nameMethod className method text).run table).table.method? className method.signature).map
        MethodMapping.mapped = some named
      ∧ (table.Sound →
        ((nameMethod className method text).run table).table.method? className method.signature
          = some ⟨method.signature, named⟩) := by
  obtain ⟨log, run⟩ := @run_nameMethod_of_ok className text method named isName table
  rw [run]
  have gets : ((table.update className (·.mapMethod method.signature named)).method? className
      method.signature).map MethodMapping.mapped = some named := by
    simp [Table.method?, Table.find?_update_self, ClassEntry.method?, ClassEntry.mapMethod,
      Assoc.find?_upsert]
  refine ⟨rfl, gets, fun sound => ?_⟩
  obtain ⟨mapping, stored, isNamed⟩ := Option.map_eq_some_iff.1 gets
  have after : (table.update className (·.mapMethod method.signature named)).Sound :=
    sound.update fun _ soundAt => soundAt.mapMethod method.signature named
  have isOwn : mapping.signature = method.signature := after.signature_of_method? stored
  exact stored.trans (congrArg some ((MethodMapping.mk.injEq ..).mpr ⟨isOwn, isNamed⟩))

/-- An accessor that finds its member gets the name made from its lead and the mapped name of the
member, if that is a name. The new name is read as the same lead and the mapped name exactly if the mapped
name is recoverable. -/
theorem derivedName_readBack_iff {linkage : Linkage}
    (parsed : AccessorName.parse? method.name.text = some accessor)
    (finds : FindsMember place method accessor table linkage mapped) :
    (∀ named, MethodName.parse (accessor.withMember mapped) = .ok named →
        ((remapMethodLinkage hierarchy place method linkage).run table).value = .ok ()
        ∧ (((remapMethodLinkage hierarchy place method linkage).run table).table.method?
            place.className method.signature).map MethodMapping.mapped = some named
        ∧ (table.Sound → ((remapMethodLinkage hierarchy place method linkage).run table).table.method?
            place.className method.signature = some ⟨method.signature, named⟩))
      ∧ (∀ failure, MethodName.parse (accessor.withMember mapped) = .error failure →
        ((remapMethodLinkage hierarchy place method linkage).run table).value = .error failure)
      ∧ ((∃ back, AccessorName.parse? (accessor.withMember mapped) = some back
          ∧ back.lead = accessor.lead ∧ back.member = mapped)
        ↔ AccessorName.Recoverable mapped) := by
  have ends : EndsLike (remapMethodLinkage hierarchy place method linkage)
      (nameMethod place.className method (accessor.withMember mapped)) table := finds.endsLike parsed
  obtain ⟨now, stillSound, sameValue, sameTable⟩ := ends
  rw [sameValue, sameTable]
  refine ⟨fun named isName => ?_, fun failure isNone => by rw [run_nameMethod_of_error isNone], ?_⟩
  · obtain ⟨success, gets, own⟩ := @nameMethod_of_ok method now place.className _ named isName
    exact ⟨success, gets, fun sound => own (stillSound sound)⟩
  · exact AccessorName.readBack_join_iff (AccessorName.lead_mem_of_parse? parsed) mapped

end

/-! ## A getter for a field `yu` -/

def yuTarget : ClassName :=
  ⟨"Target", by decide +kernel⟩

def yuField : FieldSignature :=
  ⟨⟨"yu", by decide +kernel⟩, some (.ofClass yuTarget)⟩

def yuPlace : Place :=
  ⟨⟨"Mixin", by decide +kernel⟩, "getYu()LTarget;", [yuTarget]⟩

def yuGetter : MethodDecl :=
  ⟨⟨"getYu", by decide +kernel⟩, ⟨[], some (.ofClass yuTarget)⟩, false, []⟩

def yuAccessor : AccessorName :=
  ⟨"getYu", "get", "yu"⟩

/-- The field `yu` of the target, mapped to a name. -/
def yuTable (mapped : FieldName) : Table :=
  (Table.empty .standard).update yuTarget (·.mapField yuField mapped)

/-- The getter finds the field if it is found among the targets. -/
theorem findsMember_yu {mapped : FieldName}
    (found : ((acrossTargets yuPlace (lookUpField yuField)).run (yuTable mapped)).value
      = .ok (.found mapped)) :
    FindsMember yuPlace yuGetter yuAccessor (yuTable mapped) (.getter ⟨none⟩) mapped.text :=
  .getter rfl (FieldName.parse_eq_ok.2 rfl) found

/-- The name `age` is told by `getAge`. -/
theorem derivedName_readBack_age :
    ∃ (age : FieldName) (getAge : MethodName), age.text = "age" ∧ getAge.text = "getAge"
      ∧ AccessorName.parse? yuGetter.name.text = some yuAccessor
      ∧ FindsMember yuPlace yuGetter yuAccessor (yuTable age) (.getter ⟨none⟩) "age"
      ∧ ((remapMethodLinkage .empty yuPlace yuGetter (.getter ⟨none⟩)).run (yuTable age)).table.method?
        yuPlace.className yuGetter.signature = some ⟨yuGetter.signature, getAge⟩
      ∧ ∃ back, AccessorName.parse? "getAge" = some back ∧ back.lead = "get" ∧ back.member = "age" := by
  let age : FieldName := ⟨"age", by decide +kernel⟩
  let getAge : MethodName := ⟨"getAge", by decide +kernel⟩
  have parsed : AccessorName.parse? yuGetter.name.text = some yuAccessor := by decide +kernel
  have finds : FindsMember yuPlace yuGetter yuAccessor (yuTable age) (.getter ⟨none⟩) age.text :=
    findsMember_yu (by decide +kernel)
  have recoverable : AccessorName.Recoverable "age" :=
    ⟨'a', ['g', 'e'], rfl, .inl (by decide), by decide, by decide +kernel⟩
  have isName : yuAccessor.withMember "age" = "getAge" := by decide +kernel
  obtain ⟨named, _, readBack⟩ := derivedName_readBack_iff parsed finds
  rw [isName] at named readBack
  have sound : (yuTable age).Sound := (Table.Sound.empty .standard).update fun _ soundAt =>
    soundAt.mapField yuField age
  exact ⟨age, getAge, rfl, rfl, parsed, finds, (named getAge (MethodName.parse_eq_ok.2 rfl)).2.2 sound,
    readBack.2 recoverable⟩

/-- The name `x` is lost: `getX` is read as an accessor for `X`. -/
theorem derivedName_lost_x :
    ∃ (x : FieldName) (getX : MethodName), x.text = "x" ∧ getX.text = "getX"
      ∧ AccessorName.parse? yuGetter.name.text = some yuAccessor
      ∧ FindsMember yuPlace yuGetter yuAccessor (yuTable x) (.getter ⟨none⟩) "x"
      ∧ ((remapMethodLinkage .empty yuPlace yuGetter (.getter ⟨none⟩)).run (yuTable x)).table.method?
          yuPlace.className yuGetter.signature = some ⟨yuGetter.signature, getX⟩
      ∧ AccessorName.parse? "getX" = some ⟨"getX", "get", "X"⟩ := by
  let x : FieldName := ⟨"x", by decide +kernel⟩
  have finds : FindsMember yuPlace yuGetter yuAccessor (yuTable x) (.getter ⟨none⟩) x.text :=
    findsMember_yu (by decide +kernel)
  exact ⟨x, ⟨"getX", by decide +kernel⟩, rfl, rfl, by decide +kernel, finds, by decide +kernel,
    by decide +kernel⟩

end MixinLink
