import MixinLink.Proofs.FieldLookup

/-!
# Looking up fields again and again

Looking up a field may add a mapping to the entry of its class. Nobody can tell: whatever was looked up
before, a field is found with the same mapping as if it were the first to be looked up. The mappings that
were there stay where they are. One is added, behind them, only for a field with a type that has no mapping
of its own while a mapping of its name leaves the type open, and it maps the field as that one does.

Main exports: `ClassEntry.afterLookups`, `ClassEntry.AddsCopies`, `ClassEntry.lookups_unnoticed`.
-/

namespace MixinLink.ClassEntry

/-- The entry after fields were looked up, one after the other. -/
def afterLookups (entry : ClassEntry) (looked : List FieldSignature) : ClassEntry :=
  looked.foldl (fun entry signature => (entry.resolveField signature).2) entry

/-- The second entry is the first one with mappings added at the end, one for each of the fields that were
looked up and could only be found by the mapping that leaves the type open. Each is stored under its own
signature and maps the field as that mapping does. -/
def AddsCopies (before : ClassEntry) (looked : List FieldSignature) (after : ClassEntry) : Prop :=
  ∃ added, after = { before with fields := before.fields ++ added } ∧ Assoc.Unique added
    ∧ ∀ field, field ∈ added ↔ field.1 ∈ looked ∧ field.2.signature = field.1
      ∧ before.CopiesOpen field.1 field.2.mapped

/-! ## One look-up -/

private theorem resolveField_of_copiesOpen {entry : ClassEntry} {signature : FieldSignature}
    {mapped : FieldName} (copies : entry.CopiesOpen signature mapped) :
    entry.resolveField signature
      = (some ⟨signature, mapped⟩,
        { entry with fields := entry.fields ++ [(signature, ⟨signature, mapped⟩)] }) := by
  obtain ⟨typed, absent, fromOpen⟩ := copies
  obtain ⟨untyped, found, rfl⟩ := Option.map_eq_some_iff.1 fromOpen
  simp [resolveField, typed, absent, found]

private theorem resolveField_of_not_copiesOpen {entry : ClassEntry} {signature : FieldSignature}
    (nothing : ∀ mapped, ¬entry.CopiesOpen signature mapped) :
    (entry.resolveField signature).2 = entry := by
  rcases resolveField_adds entry signature with same | ⟨mapped, copies, _⟩
  · exact same
  · exact absurd copies (nothing mapped)

private theorem addsCopies_resolveField (entry : ClassEntry) (signature : FieldSignature) :
    entry.AddsCopies [signature] (entry.resolveField signature).2 := by
  by_cases copied : ∃ mapped, entry.CopiesOpen signature mapped
  · obtain ⟨mapped, copies⟩ := copied
    refine ⟨[(signature, ⟨signature, mapped⟩)], ?_, by simp [Assoc.Unique], fun field => ?_⟩
    · rw [resolveField_of_copiesOpen copies]
    · rw [List.mem_singleton, List.mem_singleton]
      constructor
      · rintro rfl
        exact ⟨rfl, rfl, copies⟩
      · rintro ⟨isSignature, isKey, again⟩
        obtain ⟨key, stored, storedMapped⟩ := field
        obtain rfl : key = signature := isSignature
        obtain rfl : stored = key := isKey
        have sameMapped := again.fromOpen
        rw [copies.fromOpen, Option.some.injEq] at sameMapped
        rw [sameMapped]
  · have nothing : ∀ mapped, ¬entry.CopiesOpen signature mapped := fun mapped copies =>
      copied ⟨mapped, copies⟩
    refine ⟨[], ?_, Assoc.unique_nil, fun field => ?_⟩
    · rw [resolveField_of_not_copiesOpen nothing, List.append_nil]
    · simp only [List.not_mem_nil, List.mem_singleton, false_iff, not_and]
      intro isSignature _ copies
      exact nothing field.2.mapped (isSignature ▸ copies)

/-! ## Several look-ups -/

/-- Without look-ups there are no copies. -/
theorem AddsCopies.refl (entry : ClassEntry) : entry.AddsCopies [] entry :=
  ⟨[], by rw [List.append_nil], Assoc.unique_nil, by simp⟩

/-- Added mappings have a type, so they are never copied from. -/
theorem copiesOpen_append {entry : ClassEntry} {added : List (FieldSignature × FieldMapping)}
    (typed : ∀ field ∈ added, field.1.type ≠ none) {signature : FieldSignature} {mapped : FieldName} :
    CopiesOpen { entry with fields := entry.fields ++ added } signature mapped
      ↔ entry.CopiesOpen signature mapped ∧ signature ∉ added.map Prod.fst := by
  have found (asked : FieldSignature) : field? { entry with fields := entry.fields ++ added } asked
      = (entry.field? asked).or (Assoc.find? asked added) := Assoc.find?_append ..
  have noOpen : Assoc.find? signature.withoutType added = none := by
    rw [Assoc.find?_eq_none]
    intro listed
    obtain ⟨field, member, isOpen⟩ := List.mem_map.1 listed
    exact typed field member (congrArg FieldSignature.type isOpen)
  constructor
  · rintro ⟨isTyped, absent, fromOpen⟩
    rw [found, Option.or_eq_none_iff] at absent
    rw [found, noOpen, Option.or_none] at fromOpen
    exact ⟨⟨isTyped, absent.1, fromOpen⟩, Assoc.find?_eq_none.1 absent.2⟩
  · rintro ⟨⟨isTyped, absent, fromOpen⟩, notAdded⟩
    refine ⟨isTyped, ?_, ?_⟩
    · rw [found, absent, Assoc.find?_eq_none.2 notAdded, Option.or_none]
    · rw [found, noOpen, Option.or_none, fromOpen]

/-- Copies for some look-ups and then for others. -/
theorem AddsCopies.trans {before middle after : ClassEntry} {first second : List FieldSignature}
    (firstAdds : before.AddsCopies first middle) (secondAdds : middle.AddsCopies second after) :
    before.AddsCopies (first ++ second) after := by
  obtain ⟨added, rfl, unique, inAdded⟩ := firstAdds
  obtain ⟨more, rfl, moreUnique, inMore⟩ := secondAdds
  have typed : ∀ field ∈ added, field.1.type ≠ none := fun field member =>
    ((inAdded field).1 member).2.2.typed
  simp only [copiesOpen_append typed] at inMore
  refine ⟨added ++ more, by rw [List.append_assoc], ?_, fun field => ?_⟩
  · refine unique.append moreUnique fun field member => ?_
    rw [← Bool.not_eq_true, Assoc.contains_eq_true]
    exact ((inMore field).1 member).2.2.2
  · rw [List.mem_append, List.mem_append, inAdded, inMore]
    constructor
    · rintro (⟨inFirst, copies⟩ | ⟨inSecond, isKey, copies, _⟩)
      · exact ⟨.inl inFirst, copies⟩
      · exact ⟨.inr inSecond, isKey, copies⟩
    · rintro ⟨inFirst | inSecond, isKey, copies⟩
      · exact .inl ⟨inFirst, isKey, copies⟩
      · -- a field that was looked up before as well is added only once
        by_cases inFirst : field.1 ∈ first
        · exact .inl ⟨inFirst, isKey, copies⟩
        · refine .inr ⟨inSecond, isKey, copies, fun listed => inFirst ?_⟩
          obtain ⟨other, member, same⟩ := List.mem_map.1 listed
          exact same ▸ ((inAdded other).1 member).1

private theorem addsCopies_afterLookups (entry : ClassEntry) (looked : List FieldSignature) :
    entry.AddsCopies looked (entry.afterLookups looked) := by
  induction looked generalizing entry with
  | nil => exact .refl entry
  | cons signature rest ih => exact (entry.addsCopies_resolveField signature).trans (ih _)

/-- Look-ups store fields under their own signatures. -/
theorem FieldsKeyed.afterLookups {entry : ClassEntry} (keyed : entry.FieldsKeyed)
    (looked : List FieldSignature) : (entry.afterLookups looked).FieldsKeyed := by
  induction looked generalizing entry with
  | nil => exact keyed
  | cons signature rest ih => exact ih (keyed.resolveField signature)

private theorem answer_afterLookups {entry : ClassEntry} (keyed : entry.FieldsKeyed)
    (looked : List FieldSignature) (asked : FieldSignature) :
    ((entry.afterLookups looked).resolveField asked).1 = (entry.resolveField asked).1 := by
  induction looked generalizing entry with
  | nil => rfl
  | cons signature rest ih =>
      exact (ih (keyed.resolveField signature)).trans (answer_resolveField keyed signature asked)

/-- Look-ups in an entry whose fields are stored under their own signatures go unnoticed. However many fields
were looked up before, a field is found as if none were; each look-up keeps the mappings it finds and adds
one at most; after all of them there is one more for exactly those fields that could only be found by a
mapping that leaves the type open; and all are still stored under their own signatures. -/
theorem lookups_unnoticed {entry : ClassEntry} (keyed : entry.FieldsKeyed) (looked : List FieldSignature)
    (asked : FieldSignature) :
    ((entry.afterLookups looked).resolveField asked).1 = (entry.resolveField asked).1
      ∧ (entry.afterLookups looked).AddsCopies [asked] ((entry.afterLookups looked).resolveField asked).2
      ∧ entry.AddsCopies looked (entry.afterLookups looked)
      ∧ (entry.afterLookups looked).FieldsKeyed := by
  have answer := answer_afterLookups keyed looked asked
  have next := (entry.afterLookups looked).addsCopies_resolveField asked
  exact ⟨answer, next, entry.addsCopies_afterLookups looked, keyed.afterLookups looked⟩

/-- An entry with one field whose type is left open, which is looked up with a type first. -/
theorem lookups_unnoticed_typedFirst :
    let name : FieldName := ⟨"a", by decide +kernel⟩
    let owner : ClassName := ⟨"C", by decide +kernel⟩
    let isOpen : FieldSignature := ⟨name, none⟩
    let typed : FieldSignature := ⟨name, some (.ofClass owner)⟩
    let entry : ClassEntry :=
      { ClassEntry.fresh owner "C" with fields := [(isOpen, ⟨isOpen, ⟨"b", by decide +kernel⟩⟩)] }
    entry.FieldsKeyed ∧ (entry.afterLookups [typed]).fields ≠ entry.fields
      ∧ ((entry.afterLookups [typed]).resolveField isOpen).1 = (entry.resolveField isOpen).1 :=
  ⟨by decide +kernel, by decide +kernel, (lookups_unnoticed (by decide +kernel) _ _).1⟩

end MixinLink.ClassEntry
