import MixinLink.Proofs.AccessorNames

/-!
# Taking accessor names apart and putting them together

Putting the parts of an accessor name together gives the name again, without what merging added to it.
The other way round, the name made from a lead and a member is taken apart into these exactly for
members of a certain form, which depends on the case of the whole name: `getMax` is made from `max`, and
`getMAX` from `MAX`, but `getX` only ever tells `X`.

Main exports: `Text.CutBefore`, `AccessorName.recoverable_iff`, `AccessorName.inverse_where_recoverable`.
-/

namespace MixinLink

namespace Text

/-- A text without all that follows from the first occurrence of a marker on; the whole text if the
marker does not occur. -/
inductive CutBefore (marker : List Char) : List Char → List Char → Prop where
  | unmarked {text : List Char} (absent : ¬marker <:+: text) : CutBefore marker text text
  | marked {kept after : List Char}
      (first : ∀ shorter, shorter ++ marker <+: kept ++ marker ++ after → kept.length ≤ shorter.length) :
      CutBefore marker (kept ++ marker ++ after) kept

private theorem cutBefore_beforeMarker {marker : List Char} (nonempty : marker ≠ []) (text : List Char) :
    CutBefore marker text (beforeMarker marker text) := by
  induction text with
  | nil =>
      apply CutBefore.unmarked
      simpa using nonempty
  | cons c rest ih =>
      cases lead : dropLead? marker (c :: rest) with
      | some after =>
          have here : c :: rest = [] ++ marker ++ after := by simpa using dropLead?_eq_some.1 lead
          have nothing : beforeMarker marker (c :: rest) = [] := by simp [beforeMarker, lead]
          rw [nothing, here]
          exact .marked fun shorter _ => Nat.zero_le _
      | none =>
          have notHere : ¬marker <+: c :: rest := by
            intro starts
            obtain ⟨after, whole⟩ := starts
            simp [dropLead?_eq_some.2 whole.symm] at lead
          have later : beforeMarker marker (c :: rest) = c :: beforeMarker marker rest := by
            simp [beforeMarker, lead]
          rw [later]
          generalize beforeMarker marker rest = kept at ih
          cases ih with
          | unmarked absent =>
              apply CutBefore.unmarked
              simp [List.infix_cons_iff, notHere, absent]
          | @marked kept after first =>
              show CutBefore marker (c :: kept ++ marker ++ after) (c :: kept)
              apply CutBefore.marked
              intro shorter starts
              cases shorter with
              | nil => exact absurd starts notHere
              | cons d shorter =>
                  have inRest : shorter ++ marker <+: kept ++ marker ++ after := by
                    simpa using (List.cons_prefix_cons.1 starts).2
                  exact Nat.succ_le_succ (first shorter inRest)

private theorem not_isUpper_of_isLower {c : Char} (lower : isLowerAscii c = true) :
    isUpperAscii c = false := by
  rcases uppercaseAscii_cases (ascii_of_isLower lower) with isLower | isUpper | neither
  · exact isLower.2.1
  · simp [lower] at isUpper
  · exact neither.2.1

private theorem uppercaseAscii_of_isUpper {c : Char} (upper : isUpperAscii c = true) :
    uppercaseAscii c = c := by
  rcases uppercaseAscii_cases (ascii_of_isUpper upper) with isLower | isUpper | neither
  · simp [upper] at isLower
  · exact isUpper.2.2.1
  · simp [upper] at neither

end Text

namespace AccessorName

open Text (isLowerAscii isUpperAscii uppercase)

private theorem capitalize_of_isUpper {first : Char} (upper : isUpperAscii first = true) (rest : List Char) :
    capitalize (first :: rest) = first :: rest := by
  simp [capitalize, Text.uppercaseChar_of_ascii (Text.ascii_of_isUpper upper),
    Text.uppercaseAscii_of_isUpper upper]

/-- Recoverable names by the case of their first letter: one that starts with a small letter is not all
uppercase once it has a capital, and one that starts with a capital is all uppercase. -/
theorem recoverable_iff {member : String} {first : Char} {rest : List Char}
    (text : member.toList = first :: rest) :
    Recoverable member
      ↔ ¬mergeMarker <:+: rest
        ∧ ((isLowerAscii first = true
            ∧ uppercase (capitalize member.toList) ≠ capitalize member.toList)
          ∨ (isUpperAscii first = true ∧ uppercase member.toList = member.toList)) := by
  constructor
  · intro recoverable
    obtain ⟨c, others, same, letter, unmarked, whole⟩ := recoverable
    have parts : c = first ∧ others = rest := by simpa [text, eq_comm] using same
    obtain ⟨rfl, rfl⟩ := parts
    cases letter with
    | inl lower =>
        have notUpper := Text.not_isUpper_of_isLower lower
        exact ⟨unmarked, .inl ⟨lower, by simpa [notUpper] using whole⟩⟩
    | inr upper =>
        have same : capitalize member.toList = member.toList := by
          simp [text, capitalize_of_isUpper upper]
        exact ⟨unmarked, .inr ⟨upper, by simpa [upper, same] using whole⟩⟩
  · intro form
    obtain ⟨unmarked, letter⟩ := form
    cases letter with
    | inl lower =>
        have notUpper := Text.not_isUpper_of_isLower lower.1
        exact ⟨first, rest, text, .inl lower.1, unmarked, by simpa [notUpper] using lower.2⟩
    | inr upper =>
        have same : capitalize member.toList = member.toList := by
          simp [text, capitalize_of_isUpper upper.1]
        exact ⟨first, rest, text, .inr upper.1, unmarked, by simpa [upper.1, same] using upper.2⟩

/-- Putting together what an accessor name was taken apart to gives the name up to the marker, where the
letter right after the lead always stays. Taking apart what was put together gives the parts exactly if
the marker does not follow the first letter of the member, and the case of that letter fits the rest. -/
theorem inverse_where_recoverable :
    (∀ method accessor, parse? method = some accessor →
      ∃ first rest kept, method.toList = accessor.lead.toList ++ first :: rest
        ∧ Text.CutBefore mergeMarker rest kept
        ∧ (join accessor.lead accessor.member).toList = accessor.lead.toList ++ first :: kept)
    ∧ ∀ lead ∈ leads, ∀ member first rest, member.toList = first :: rest →
      ((∃ back, parse? (join lead member) = some back ∧ back.lead = lead ∧ back.member = member)
        ↔ ¬mergeMarker <:+: rest
          ∧ ((isLowerAscii first = true
              ∧ uppercase (capitalize member.toList) ≠ capitalize member.toList)
            ∨ (isUpperAscii first = true ∧ uppercase member.toList = member.toList))) := by
  constructor
  · intro method accessor parsed
    obtain ⟨rest, whole, upper, isMember⟩ := split_of_parse? parsed
    cases rest with
    | nil => simp [startsUpper] at upper
    | cons first rest =>
        have isMarker : mergeMarker ≠ [] := by decide
        exact ⟨first, rest, _, whole, Text.cutBefore_beforeMarker isMarker rest,
          toList_join_member upper isMember⟩
  · intro lead isLead member first rest text
    exact (readBack_join_iff isLead member).trans (recoverable_iff text)

/-- A merged name loses what merging added, the small letter comes back in `getAge`, and `ü` does not:
`isÜrig` is no accessor name. -/
theorem inverse_where_recoverable_age :
    (∃ accessor, parse? "getAGE_$md$a1$0" = some accessor ∧ accessor.member = "AGE"
      ∧ ∃ first rest kept, "getAGE_$md$a1$0".toList = accessor.lead.toList ++ first :: rest
        ∧ Text.CutBefore mergeMarker rest kept
        ∧ (join accessor.lead accessor.member).toList = accessor.lead.toList ++ first :: kept)
    ∧ (∃ back, parse? (join "get" "age") = some back ∧ back.lead = "get" ∧ back.member = "age")
    ∧ ¬∃ back, parse? (join "is" "ürig") = some back ∧ back.lead = "is" ∧ back.member = "ürig" := by
  obtain ⟨again, back⟩ := inverse_where_recoverable
  have merged : parse? "getAGE_$md$a1$0" = some ⟨"getAGE_$md$a1$0", "get", "AGE"⟩ := by decide +kernel
  have small := back "get" (by decide) "age" 'a' ['g', 'e'] rfl
  have notAscii := back "is" (by decide) "ürig" 'ü' ['r', 'i', 'g'] rfl
  have recovered : ¬mergeMarker <:+: ['g', 'e']
      ∧ ((isLowerAscii 'a' = true
          ∧ uppercase (capitalize "age".toList) ≠ capitalize "age".toList)
        ∨ (isUpperAscii 'a' = true ∧ uppercase "age".toList = "age".toList)) := by decide +kernel
  have noLetter : isLowerAscii 'ü' = false ∧ isUpperAscii 'ü' = false := by decide
  exact ⟨⟨_, merged, rfl, again _ _ merged⟩, small.2 recovered, by simp [notAscii, noLetter]⟩

end AccessorName

end MixinLink
