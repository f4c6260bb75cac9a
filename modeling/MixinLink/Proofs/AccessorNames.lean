import Mathlib.Data.List.Infix
import MixinLink.AccessorName

/-!
# Reading accessor names back

The name of an accessor method is made from a lead and the name of a member. Reading it again gives
the lead and the member exactly for member names of a certain form: what is made from `x` is `getX`,
which is read as an accessor for `X`.

Main exports: `Text.uppercaseAscii_cases`, `AccessorName.splitLead?_append`,
`AccessorName.Recoverable`, `AccessorName.readBack_join_iff`, `AccessorName.lead_mem_of_parse?`.
-/

namespace MixinLink

/-! ## Letters and markers -/

namespace Text

/-- Small ASCII letters are ASCII characters. -/
theorem ascii_of_isLower {c : Char} (lower : isLowerAscii c = true) : c.toNat < 128 := by
  simp only [isLowerAscii, Bool.and_eq_true, decide_eq_true_eq, Char.le_def,
    UInt32.le_iff_toNat_le] at lower
  have upTo : c.toNat ≤ 122 := lower.2
  omega

/-- Capital ASCII letters are ASCII characters. -/
theorem ascii_of_isUpper {c : Char} (upper : isUpperAscii c = true) : c.toNat < 128 := by
  simp only [isUpperAscii, Bool.and_eq_true, decide_eq_true_eq, Char.le_def,
    UInt32.le_iff_toNat_le] at upper
  have upTo : c.toNat ≤ 90 := upper.2
  omega

/-- An ASCII character is a lowercase letter, an uppercase letter, or neither. -/
theorem uppercaseAscii_cases {c : Char} (ascii : c.toNat < 128) :
    (isLowerAscii c = true ∧ isUpperAscii c = false ∧ isUpperAscii (uppercaseAscii c) = true
        ∧ uppercaseAscii c ≠ c ∧ lowercaseAscii (uppercaseAscii c) = c)
      ∨ (isLowerAscii c = false ∧ isUpperAscii c = true ∧ uppercaseAscii c = c ∧ lowercaseAscii c ≠ c)
      ∨ (isLowerAscii c = false ∧ isUpperAscii c = false
        ∧ isUpperAscii (uppercaseAscii c) = false) := by
  have all : ∀ n < 128, (fun c : Char =>
      (isLowerAscii c = true ∧ isUpperAscii c = false ∧ isUpperAscii (uppercaseAscii c) = true
          ∧ uppercaseAscii c ≠ c ∧ lowercaseAscii (uppercaseAscii c) = c)
        ∨ (isLowerAscii c = false ∧ isUpperAscii c = true ∧ uppercaseAscii c = c ∧ lowercaseAscii c ≠ c)
        ∨ (isLowerAscii c = false ∧ isUpperAscii c = false
          ∧ isUpperAscii (uppercaseAscii c) = false)) (Char.ofNat n) := by
    decide +kernel
  have atCode := all c.toNat ascii
  rwa [Char.ofNat_toNat] at atCode

/-- Of an ASCII character only one character is made. -/
theorem uppercaseChar_of_ascii {c : Char} (ascii : c.toNat < 128) :
    uppercaseChar c = [uppercaseAscii c] := by
  simp [uppercaseChar, ascii]

private theorem beforeMarker_eq_self_iff {marker text : List Char} (nonempty : marker ≠ []) :
    beforeMarker marker text = text ↔ ¬ marker <:+: text := by
  induction text with
  | nil => simp [beforeMarker, nonempty]
  | cons c rest ih =>
      rw [List.infix_cons_iff, not_or, ← ih]
      by_cases starts : (dropLead? marker (c :: rest)).isSome
      · obtain ⟨after, dropped⟩ := Option.isSome_iff_exists.1 starts
        have leads : marker <+: c :: rest := ⟨after, (dropLead?_eq_some.1 dropped).symm⟩
        simp [beforeMarker, starts, leads]
      · have noLead : ¬ marker <+: c :: rest := by
          rintro ⟨after, whole⟩
          rw [dropLead?_eq_some.2 whole.symm] at starts
          simp at starts
        simp [beforeMarker, starts, noLead]

end Text

namespace AccessorName

open Text (isLowerAscii isUpperAscii uppercase uppercaseAscii uppercaseChar lowercaseAscii beforeMarker)

/-! ## Leads -/

private theorem findSome?_of_only {α β : Type} {f : α → Option β} {items : List α} {item : α}
    (member : item ∈ items) (only : ∀ other ∈ items, other ≠ item → f other = none) :
    items.findSome? f = f item := by
  induction items with
  | nil => simp at member
  | cons first rest ih =>
      by_cases same : first = item
      · subst same
        cases found : f first with
        | some value => simp [List.findSome?, found]
        | none =>
            have noMore : rest.findSome? f = none := by
              rw [List.findSome?_eq_none_iff]
              intro other isOther
              by_cases again : other = first
              · rw [again, found]
              · exact only other (List.mem_cons_of_mem _ isOther) again
            simp [List.findSome?, found, noMore]
      · have later := (List.mem_cons.1 member).resolve_left (Ne.symm same)
        rw [List.findSome?_cons, only first List.mem_cons_self same]
        exact ih later fun other isOther => only other (List.mem_cons_of_mem _ isOther)

private theorem eq_of_lead_starts {a b : String} (isLead : a ∈ leads) (isOther : b ∈ leads)
    (starts : a.toList <+: b.toList) : a = b := by
  have apart : ∀ a ∈ leads, ∀ b ∈ leads, a.toList <+: b.toList → a = b := by decide
  exact apart a isLead b isOther starts

/-- What follows a lead is found again: no lead is the beginning of another. -/
theorem splitLead?_append {lead : String} (isLead : lead ∈ leads) (rest : List Char) :
    splitLead? (lead.toList ++ rest) = if startsUpper rest then some (lead, rest) else none := by
  unfold splitLead?
  rw [findSome?_of_only isLead]
  · have dropped : Text.dropLead? lead.toList (lead.toList ++ rest) = some rest :=
      Text.dropLead?_eq_some.2 rfl
    by_cases upper : startsUpper rest
    · simp [afterLead?, dropped, upper]
    · simp [afterLead?, dropped, upper]
  · intro other isOther differs
    have notThere : Text.dropLead? other.toList (lead.toList ++ rest) = none := by
      rw [Option.eq_none_iff_forall_ne_some]
      intro after dropped
      have whole := Text.dropLead?_eq_some.1 dropped
      have first : other.toList <+: lead.toList ++ rest := ⟨after, whole.symm⟩
      rcases List.prefix_or_prefix_of_prefix first (List.prefix_append _ _) with shorter | longer
      · exact differs (eq_of_lead_starts isOther isLead shorter)
      · exact differs (eq_of_lead_starts isLead isOther longer).symm
    simp [afterLead?, notThere]

/-- An accessor starts with one of the known leads. -/
theorem lead_mem_of_parse? {method : String} {accessor : AccessorName}
    (parsed : parse? method = some accessor) : accessor.lead ∈ leads := by
  obtain ⟨⟨lead, rest⟩, split, rfl⟩ := Option.map_eq_some_iff.1 parsed
  obtain ⟨found, isLead, after⟩ := List.exists_of_findSome?_eq_some split
  obtain ⟨_, _, same⟩ := Option.map_eq_some_iff.1 after
  cases same
  exact isLead

/-- An accessor consists of its lead and a rest with a capital first, which the member is made of. -/
theorem split_of_parse? {method : String} {accessor : AccessorName}
    (parsed : parse? method = some accessor) :
    ∃ rest, method.toList = accessor.lead.toList ++ rest ∧ startsUpper rest = true
      ∧ accessor.member.toList = memberCase (dropMerged rest) := by
  obtain ⟨⟨lead, rest⟩, split, rfl⟩ := Option.map_eq_some_iff.1 parsed
  obtain ⟨_, _, after⟩ := List.exists_of_findSome?_eq_some split
  obtain ⟨found, filtered, same⟩ := Option.map_eq_some_iff.1 after
  cases same
  obtain ⟨dropped, upper⟩ := Option.filter_eq_some_iff.1 filtered
  exact ⟨rest, Text.dropLead?_eq_some.1 dropped, upper, by simp⟩

/-! ## Names that are made again -/

private theorem capitalize_memberCase {text : List Char} (upper : startsUpper text = true) :
    capitalize (memberCase text) = text := by
  cases text with
  | nil => rfl
  | cons first rest =>
      have isUpper : isUpperAscii first = true := upper
      have all : ∀ n < 128, isUpperAscii (Char.ofNat n) = true →
          uppercaseChar (Char.ofNat n) = [Char.ofNat n]
            ∧ uppercaseChar (lowercaseAscii (Char.ofNat n)) = [Char.ofNat n] := by
        decide +kernel
      have atCode := all first.toNat (Text.ascii_of_isUpper isUpper)
      rw [Char.ofNat_toNat] at atCode
      obtain ⟨stays, back⟩ := atCode isUpper
      unfold memberCase
      dsimp only
      split
      · rw [capitalize, stays, List.singleton_append]
      · rw [capitalize, back, List.singleton_append]

private theorem startsUpper_dropMerged (text : List Char) :
    startsUpper (dropMerged text) = startsUpper text := by
  cases text with
  | nil => rfl
  | cons first rest => rfl

/-- The name of an accessor is made again from what it was taken apart to, up to the marker. -/
theorem toList_join_member {lead member : String} {rest : List Char} (upper : startsUpper rest = true)
    (isMember : member.toList = memberCase (dropMerged rest)) :
    (join lead member).toList = lead.toList ++ dropMerged rest := by
  have stillUpper : startsUpper (dropMerged rest) = true := by
    simpa [startsUpper_dropMerged] using upper
  simp [join, isMember, capitalize_memberCase stillUpper]

/-- Without the marker, the name of an accessor is made again from what it was taken apart to. -/
theorem withMember_member {method : String} {accessor : AccessorName}
    (parsed : parse? method = some accessor) (unmerged : ¬mergeMarker <:+: method.toList) :
    accessor.withMember accessor.member = method := by
  obtain ⟨rest, whole, upper, isMember⟩ := split_of_parse? parsed
  have isMarker : mergeMarker ≠ [] := by decide
  have kept : dropMerged rest = rest := by
    cases rest with
    | nil => rfl
    | cons first others =>
        have noMarker : ¬mergeMarker <:+: others := by
          intro marked
          apply unmerged
          rw [whole]
          exact (marked.trans (List.suffix_cons first others).isInfix).trans (List.suffix_append _ _).isInfix
        rw [dropMerged, (Text.beforeMarker_eq_self_iff isMarker).2 noMarker]
  have again : (join accessor.lead accessor.member).toList = accessor.lead.toList ++ dropMerged rest :=
    toList_join_member upper isMember
  apply String.toList_injective
  rw [withMember, again, kept, whole]

/-! ## Names that are read back -/

/-- A member name that can be read off the names made from it: it starts with an ASCII letter, no merge
marker follows, and the first letter is a capital exactly if the whole name becomes uppercase with a
capital in front. -/
def Recoverable (member : String) : Prop :=
  ∃ first rest, member.toList = first :: rest
    ∧ (isLowerAscii first = true ∨ isUpperAscii first = true)
    ∧ ¬ mergeMarker <:+: rest
    ∧ (isUpperAscii first = true
      ↔ uppercase (capitalize member.toList) = capitalize member.toList)

private theorem parse?_join {lead : String} (isLead : lead ∈ leads) (member : String) :
    parse? (join lead member)
      = if startsUpper (capitalize member.toList) then
          some ⟨join lead member, lead,
            String.ofList (memberCase (dropMerged (capitalize member.toList)))⟩
        else none := by
  have text : (join lead member).toList = lead.toList ++ capitalize member.toList := by
    simp [join]
  unfold parse? parseWithCase?
  rw [text, splitLead?_append isLead]
  by_cases upper : startsUpper (capitalize member.toList)
  · simp [upper]
  · simp [upper]

private theorem tail_memberCase (first : Char) (rest : List Char) :
    (memberCase (first :: rest)).tail = rest := by
  unfold memberCase
  dsimp only
  split
  · rfl
  · rfl

/-- What is read starts with an ASCII letter. -/
theorem ascii_memberCase {first : Char} (upper : isUpperAscii first = true) (rest : List Char) :
    ∃ c, (memberCase (first :: rest)).head? = some c ∧ c.toNat < 128 := by
  have ascii := Text.ascii_of_isUpper upper
  unfold memberCase
  dsimp only
  split
  · exact ⟨first, rfl, ascii⟩
  · refine ⟨lowercaseAscii first, rfl, ?_⟩
    have all : ∀ n < 128, (lowercaseAscii (Char.ofNat n)).toNat < 128 := by decide +kernel
    have atCode := all first.toNat ascii
    rwa [Char.ofNat_toNat] at atCode

private theorem memberCase_dropMerged_iff {first : Char} (ascii : first.toNat < 128) (rest : List Char) :
    (startsUpper (capitalize (first :: rest)) = true
        ∧ memberCase (dropMerged (capitalize (first :: rest))) = first :: rest)
      ↔ (isLowerAscii first = true ∨ isUpperAscii first = true) ∧ ¬ mergeMarker <:+: rest
        ∧ (isUpperAscii first = true
          ↔ uppercase (capitalize (first :: rest)) = capitalize (first :: rest)) := by
  have capital : capitalize (first :: rest) = uppercaseAscii first :: rest := by
    rw [capitalize, Text.uppercaseChar_of_ascii ascii, List.singleton_append]
  have isMarker : mergeMarker ≠ [] := by decide
  rw [capital, ← Text.beforeMarker_eq_self_iff isMarker, dropMerged]
  by_cases unmarked : beforeMarker mergeMarker rest = rest
  · rw [unmarked]
    by_cases whole : uppercase (uppercaseAscii first :: rest) = uppercaseAscii first :: rest
    · rcases Text.uppercaseAscii_cases ascii with lower | upper | neither
      · obtain ⟨isLower, notUpper, isUpper, changed, _⟩ := lower
        simp [memberCase, startsUpper, whole, notUpper, changed]
      · obtain ⟨_, isUpper, same, _⟩ := upper
        rw [same] at whole ⊢
        simp [memberCase, startsUpper, whole, isUpper]
      · obtain ⟨notLower, notUpper, stays⟩ := neither
        simp [startsUpper, stays, notLower, notUpper]
    · rcases Text.uppercaseAscii_cases ascii with lower | upper | neither
      · obtain ⟨isLower, notUpper, isUpper, _, back⟩ := lower
        simp [memberCase, startsUpper, whole, isLower, notUpper, isUpper, back]
      · obtain ⟨_, isUpper, same, moved⟩ := upper
        rw [same] at whole ⊢
        simp [memberCase, startsUpper, whole, isUpper, moved]
      · obtain ⟨notLower, notUpper, stays⟩ := neither
        simp [startsUpper, stays, notLower, notUpper]
  · have differs : memberCase (uppercaseAscii first :: beforeMarker mergeMarker rest)
        ≠ first :: rest := by
      intro same
      apply unmarked
      rw [← tail_memberCase (uppercaseAscii first) (beforeMarker mergeMarker rest), same, List.tail_cons]
    simp [differs, unmarked]

/-- The name made from a lead and a member is read as that lead and that member exactly if the member
is recoverable. -/
theorem readBack_join_iff {lead : String} (isLead : lead ∈ leads) (member : String) :
    (∃ back, parse? (join lead member) = some back ∧ back.lead = lead ∧ back.member = member)
      ↔ Recoverable member := by
  rw [parse?_join isLead]
  cases text : member.toList with
  | nil => simp [Recoverable, text, capitalize, startsUpper]
  | cons first rest =>
      have isMember : ∀ read, String.ofList read = member ↔ read = first :: rest := by
        intro read
        rw [← text, ← String.toList_inj, String.toList_ofList]
      by_cases ascii : first.toNat < 128
      · have core := memberCase_dropMerged_iff ascii rest
        constructor
        · rintro ⟨back, parsed, _, named⟩
          split at parsed
          · rename_i upper
            cases parsed
            obtain ⟨letter, unmarked, whole⟩ := core.1 ⟨upper, (isMember _).1 named⟩
            exact ⟨first, rest, text, letter, unmarked, by rw [text]; exact whole⟩
          · cases parsed
        · rintro ⟨c, others, same, letter, unmarked, whole⟩
          rw [text] at same whole
          cases same
          obtain ⟨upper, read⟩ := core.2 ⟨letter, unmarked, whole⟩
          exact ⟨_, if_pos upper, rfl, (isMember _).2 read⟩
      · -- The first character is no ASCII letter, but what is read starts with one.
        constructor
        · rintro ⟨back, parsed, _, named⟩
          split at parsed
          · rename_i upper
            cases parsed
            have read := (isMember _).1 named
            cases capital : capitalize (first :: rest) with
            | nil => simp [capital, startsUpper] at upper
            | cons c others =>
                rw [capital] at upper read
                obtain ⟨d, head, isAscii⟩ := ascii_memberCase upper (beforeMarker mergeMarker others)
                rw [dropMerged] at read
                rw [read] at head
                cases head
                exact absurd isAscii ascii
          · cases parsed
        · rintro ⟨c, others, same, letter, _⟩
          rw [text] at same
          cases same
          rcases letter with lower | upper
          · exact absurd (Text.ascii_of_isLower lower) ascii
          · exact absurd (Text.ascii_of_isUpper upper) ascii

end AccessorName

end MixinLink
